import DataRecorder.Base.Memory
import DataRecorder.Base.System
import DataRecorder.Base.Loop
import DataRecorder.Base.Decimal
import DataRecorder.Base.Wire
import DataRecorder.Base.Nor
import DataRecorder.Base.Float
import DataRecorder.Rtc
import DataRecorder.Dht11.Driver
import DataRecorder.Dht11.Sampler
import DataRecorder.Logger.RingBuffer
import DataRecorder.Logger.Csv
import DataRecorder.Logger.Saver
import DataRecorder.Logger.WholeLines
import DataRecorder.Logger.Conservation
import DataRecorder.Logger.Threads
import DataRecorder.Logger.Stranded
import DataRecorder.Logger.Pairing
import DataRecorder.Flash.W25qxx
import DataRecorder.Touch.Eeprom
import DataRecorder.Touch.Scan
import DataRecorder.Touch.Adjust
import DataRecorder.Touch.Boot
import DataRecorder.Touch.Presses
import DataRecorder.Touch.Touchpad
import DataRecorder.Gui.FileBrowser
import DataRecorder.Usmart.Receive
import DataRecorder.Usmart.Lines
import DataRecorder.Usmart.Fparam
import DataRecorder.Usmart.Arguments
import DataRecorder.Usmart.Fname
import DataRecorder.Usmart.Command
import DataRecorder.Base.Widgets
import DataRecorder.Base.Timers
import DataRecorder.Gui.Windows
import DataRecorder.Gui.Navigation
import DataRecorder.Gui.Callbacks
import DataRecorder.Gui.Sessions
import DataRecorder.Dht11.Frames
import DataRecorder.Gui.TextWindow
import DataRecorder.Gui.PathBuffer
import DataRecorder.Dht11.Rotation
import DataRecorder.Logger.Decode
import DataRecorder.Base.Exchange
import DataRecorder.Touch.Filter
import DataRecorder.Touch.RoundTrip
import DataRecorder.Touch.Acceptance
import DataRecorder.Touch.Crosses
import DataRecorder.Touch.Gt9147
import DataRecorder.Hal.Waiting
import DataRecorder.Gui.DateSetting
import DataRecorder.Usmart.Scanner
import DataRecorder.Usmart.FnameBuffer
import DataRecorder.Usmart.Literal
import DataRecorder.Usmart.Dispatch
import DataRecorder.Base.Dda
import DataRecorder.Lcd.Line
import DataRecorder.Lcd.Text
import DataRecorder.Base.TwoWire
import DataRecorder.Iic.Driver
import DataRecorder.Iic.At24cxx
import DataRecorder.Iic.Store
import DataRecorder.Lcd.Number
import DataRecorder.Base.Chain
import DataRecorder.Kernel.MessageQueue
import DataRecorder.Kernel.Delivery
import DataRecorder.Base.WaitList
import DataRecorder.Kernel.Wakeup
import DataRecorder.Base.Words
import DataRecorder.Kernel.Mem
import DataRecorder.Base.Blocks
import DataRecorder.Kernel.HeapLayout
import DataRecorder.Kernel.HeapCalls
import DataRecorder.Kernel.HeapRealloc
import DataRecorder.Kernel.HeapRuns
import DataRecorder.Base.Alarms
import DataRecorder.Kernel.Timer
import DataRecorder.Kernel.TimerExact
import DataRecorder.Kernel.TimerRuns
import DataRecorder.Base.Canvas
import DataRecorder.Lcd.Controller
import DataRecorder.Lcd.Drawing
import DataRecorder.Lcd.Scan

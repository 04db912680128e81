import CourseDesign.Lib.Machine
import CourseDesign.Lib.Decimal
import CourseDesign.Lib.LittleEndian
import CourseDesign.Lib.PlaceMarker
import CourseDesign.Lib.I2C
import CourseDesign.Lib.AllOrNone
import CourseDesign.Lib.Loop
import CourseDesign.Lib.Bmp
import CourseDesign.Lib.Fifo
import CourseDesign.Terminal.Tasks
import CourseDesign.Terminal.MutexDiscipline
import CourseDesign.Terminal.Delivery
import CourseDesign.Terminal.OneCard
import CourseDesign.Terminal.Lamps
import CourseDesign.Terminal.StartUp
import CourseDesign.Terminal.CardText
import CourseDesign.Attendance.Server
import CourseDesign.Attendance.Framing
import CourseDesign.Attendance.Enrolled
import CourseDesign.Attendance.Soundness
import CourseDesign.Sensor.EndDevice
import CourseDesign.Sensor.Coordinator
import CourseDesign.Sensor.RoundTrip
import CourseDesign.Sensor.Bus
import CourseDesign.Sensor.RegisterWrite
import CourseDesign.Sensor.Mpu6050
import CourseDesign.Sensor.RegisterRead
import CourseDesign.Sensor.SerialLine
import CourseDesign.Sensor.PacketBounds
import CourseDesign.Drivers.EventDrv
import CourseDesign.Drivers.EventQueue
import CourseDesign.Drivers.Bounds
import CourseDesign.Drivers.EventCounter
import CourseDesign.Drivers.InputEvent
import CourseDesign.Drivers.TouchPairs
import CourseDesign.Drivers.LcdAccounting
import CourseDesign.Drivers.Bitmap
import CourseDesign.Drivers.BitmapBounds
import CourseDesign.Drivers.BitmapDecode
import CourseDesign.Drivers.BitmapZoom
import CourseDesign.Voice.CommandLoop
import CourseDesign.Voice.Pairing
import CourseDesign.Voice.TouchWait
import CourseDesign.Voice.Upload
import CourseDesign.Voice.ReplyParser
import CourseDesign.Voice.TouchCtrl
import CourseDesign.Voice.DrawBmp
import CourseDesign.Voice.Placement
import CourseDesign.Voice.Resources
import CourseDesign.Voice.FailedReads
import CourseDesign.Lib.FirstFit
import CourseDesign.Lib.ObjectStore
import CourseDesign.Osal.Memory
import CourseDesign.Osal.MemoryRuns
import CourseDesign.Lib.LinkedList
import CourseDesign.Lib.Mailbox
import CourseDesign.Osal.Messages
import CourseDesign.Osal.Scheduler
import CourseDesign.Osal.Draining
import CourseDesign.Lib.AlarmClock
import CourseDesign.Osal.Timers
import CourseDesign.Osal.TimerRuns
import CourseDesign.Osal.Ticking
import CourseDesign.Osal.TimerEvents
import CourseDesign.Lib.RestoringDivision
import CourseDesign.Lib.Mcs51
import CourseDesign.Osal.Divide
import CourseDesign.Lib.Stretches
import CourseDesign.Osal.Clock
import CourseDesign.Lib.PagedBitmap
import CourseDesign.Lib.Ssd1306
import CourseDesign.Terminal.OledShapes
import CourseDesign.Terminal.OledGlyphs
import CourseDesign.Terminal.OledPanel
import CourseDesign.Terminal.OledText
import CourseDesign.Terminal.OledFont
import CourseDesign.Terminal.OledRuns
import CourseDesign.Terminal.CardScreen
import CourseDesign.Lib.Procedure
import CourseDesign.Lib.HeapBlocks
import CourseDesign.Terminal.Rc522
import CourseDesign.Terminal.Scanner
import CourseDesign.Terminal.Device

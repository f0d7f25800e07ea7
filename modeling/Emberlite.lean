import Emberlite.Lib.CString
import Emberlite.Lib.OrderedMap
import Emberlite.Lib.LinkedSegment
import Emberlite.Lib.StableInsert
import Emberlite.Lib.Mutex
import Emberlite.Lib.BitRegister
import Emberlite.Lib.BlockStream
import Emberlite.Lib.ByteOrder
import Emberlite.Lib.Pieces
import Emberlite.Lib.History
import Emberlite.Lib.FlagWord
import Emberlite.Lib.CNumber
import Emberlite.Lib.Scanf
import Emberlite.Lib.Bracket
import Emberlite.Lib.FixedBuffer
import Emberlite.Lib.Interleave
import Emberlite.Lib.RegisterPeriod
import Emberlite.Lib.Rotation
import Emberlite.Lib.ShiftRegister
import Emberlite.Lib.Lines
import Emberlite.Lib.Marks
import Emberlite.Lib.Potential
import Emberlite.Runtime.Fsm
import Emberlite.Runtime.FsmReference
import Emberlite.Runtime.FsmNested
import Emberlite.Runtime.NodeRegistry
import Emberlite.Runtime.NodeRegistryMap
import Emberlite.Runtime.NodeRegistryLaws
import Emberlite.Ppool.Queue
import Emberlite.Ppool.Pool
import Emberlite.Ppool.PoolInv
import Emberlite.Ppool.PoolRun
import Emberlite.Ppool.Destroy
import Emberlite.Ppool.DestroySafe
import Emberlite.Ppool.EntryLock
import Emberlite.Ppool.QueueHistory
import Emberlite.Ppool.PoolThreads
import Emberlite.Ppool.Progress
import Emberlite.Ppool.Rest
import Emberlite.Crypto.Crc
import Emberlite.Crypto.CrcBitwise
import Emberlite.Crypto.CrcDetect
import Emberlite.Crypto.Sha256Spec
import Emberlite.Crypto.Md5Spec
import Emberlite.Crypto.Blocks
import Emberlite.Crypto.Sha256
import Emberlite.Crypto.Md5
import Emberlite.Crypto.Md5Sines
import Emberlite.Crypto.CrcDistance
import Emberlite.Crypto.Bounds
import Emberlite.Netdev.Dns
import Emberlite.Netdev.ResolvConf
import Emberlite.Netdev.IpAttr
import Emberlite.Netdev.SetIp
import Emberlite.Netdev.Mac
import Emberlite.Netdev.OpenSockets
import Emberlite.Hal.Syscall
import Emberlite.Hal.Uart
import Emberlite.Hal.UartLine
import Emberlite.Hal.I2c
import Emberlite.Hal.I2cBus
import Emberlite.Hal.Gpio
import Emberlite.Hal.GpioPin
import Emberlite.Hal.Timer
import Emberlite.Hal.Pwm
import Emberlite.Hal.PwmPeriod
import Emberlite.Lib.Rounding
import Emberlite.Lib.FloatValue
import Emberlite.Lib.FloatText
import Emberlite.Hal.PwmPercent
import Emberlite.Hal.I2s
import Emberlite.Hal.I2sFrames
import Emberlite.Hal.Can
import Emberlite.Hal.Input
import Emberlite.Hal.Spi
import Emberlite.Hal.Close
import Emberlite.Hal.Descriptor
import Emberlite.Hal.CloseRace
import Emberlite.Hal.UartWrite
import Emberlite.Hal.TransferCount
import Emberlite.Hal.CanFrames
import Emberlite.Hal.UartSettings
import Emberlite.Hal.InputEvents
import Emberlite.Hal.Timerfd
import Emberlite.Hal.SystemTime
import Emberlite.Hal.Uptime
import Emberlite.Hal.Watchdog
import Emberlite.Hal.Adc
import Emberlite.Hal.AdcVoltage
import Emberlite.Hal.Onewire
import Emberlite.Hal.OnewireCelsius
import Emberlite.Hal.SysfsPaths
import Emberlite.Hal.Resources
import Emberlite.Hal.Lifecycle
import Emberlite.Hal.CanSocket
import Emberlite.Hal.Termios
import Emberlite.Hal.UartEdits
import Emberlite.Hal.UartOpen
import Emberlite.Hal.Usb
import Emberlite.Scripts.Genconfig
import Emberlite.Scripts.RcBlocks
import Emberlite.Lib.SelectedMap
import Emberlite.Scripts.Envs
import Emberlite.Scripts.Configure
import Emberlite.Scripts.Pipeline
import Emberlite.Lib.Dialogue
import Emberlite.Lib.Segments
import Emberlite.Apps.Console
import Emberlite.Apps.Screen
import Emberlite.Apps.UartEcho
import Emberlite.Apps.UartTerm
import Emberlite.Apps.Invocation
import Emberlite.Apps.Link

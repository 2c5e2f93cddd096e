import PartLib.Lib.Machine
import PartLib.Lib.Memory
import PartLib.Lib.Stores
import PartLib.Lib.Slices
import PartLib.Lib.Cut
import PartLib.Lib.Excursions
import PartLib.Lib.LinkedList
import PartLib.Lib.Framing
import PartLib.Lib.CString
import PartLib.Lib.Program
import PartLib.Lib.LockedPool
import PartLib.Lib.PoolRuns
import PartLib.Lib.WaitFor
import PartLib.Lib.LockInvariant
import PartLib.Lib.AtomicPool
import PartLib.Lib.Views
import PartLib.Lib.Refinement
import PartLib.Lib.Reaches
import PartLib.Lib.FlatObject
import PartLib.EspErr
import PartLib.Ble.WriteBuffer
import PartLib.Ble.SppServer
import PartLib.Ble.LongWrite
import PartLib.Ble.PreparedList
import PartLib.Ble.NotifyFlag
import PartLib.Ble.Commands
import PartLib.Ble.CommandLength
import PartLib.Ble.LinkTask
import PartLib.Ble.Fragment
import PartLib.Ble.Uplink
import PartLib.Ble.Server
import PartLib.Ble.FragmentMtu
import PartLib.Ble.Mtu
import PartLib.Ble.LinkGate
import PartLib.Ble.ConsoleLl
import PartLib.Ble.LineReaders
import PartLib.Ble.ConsolePrintf
import PartLib.Ble.QueueWriters
import PartLib.Ble.LineFraming
import PartLib.Ble.Delivery
import PartLib.Ble.Downlink
import PartLib.Ble.ConsolePrint
import PartLib.Ble.Bringup
import PartLib.Ble.Connections
import PartLib.Mqtt.Wrapper
import PartLib.Mqtt.Topic
import PartLib.Mqtt.Resubscribe
import PartLib.Mqtt.TopicLayout
import PartLib.Mqtt.Statements
import PartLib.Mqtt.Startup
import PartLib.Mqtt.Restart
import PartLib.Mqtt.BrokerUrl
import PartLib.Mqtt.Locks
import PartLib.Mqtt.LockSteps
import PartLib.Mqtt.Deadlock
import PartLib.Mqtt.Sections
import PartLib.Provisioning.SelfTest
import PartLib.Provisioning.Erase
import PartLib.Provisioning.Payload
import PartLib.Provisioning.Reboots
import PartLib.Provisioning.Provisionable
import PartLib.Ota.UpdatePost
import PartLib.Ota.Uploads
import PartLib.Ota.Partitions
import PartLib.Ota.Firmware
import PartLib.Ota.Updates
import PartLib.Ota.Updatable
import PartLib.I2c.I2cDev
import PartLib.I2c.Tca9534
import PartLib.I2c.Mcp4728
import PartLib.I2c.Discipline
import PartLib.I2c.Outcomes
import PartLib.I2c.OutRegister
import PartLib.I2c.ExpanderPin
import PartLib.I2c.DacChannels
import PartLib.I2c.DacPower
import PartLib.I2c.StatusBits
import PartLib.I2c.DacLimit
import PartLib.I2c.Port
import PartLib.I2c.PortRuns
import PartLib.I2c.PortFailure
import PartLib.I2c.PortAtomic
import PartLib.I2c.PortLifecycle
import PartLib.Encoder.Encoder
import PartLib.Encoder.MyEncoder
import PartLib.Encoder.EventQueue
import PartLib.Encoder.Lifecycle
import PartLib.Encoder.Quadrature
import PartLib.Encoder.PositionSetter
import PartLib.Encoder.Detents
import PartLib.Encoder.Bounce
import PartLib.Encoder.Button
import PartLib.Encoder.Registry
import PartLib.Encoder.Independence
import PartLib.TcpConsole.Driver
import PartLib.TcpConsole.SocketInit
import PartLib.TcpConsole.Service
import PartLib.TcpConsole.Ownership

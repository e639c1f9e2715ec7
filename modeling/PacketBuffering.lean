import PacketBuffering.Aes.BeatAddr
import PacketBuffering.Aes.Loopback
import PacketBuffering.Aes.Master
import PacketBuffering.Aes.Narrow
import PacketBuffering.Aes.SoftReset
import PacketBuffering.Counter.Law
import PacketBuffering.Crc.BurstError
import PacketBuffering.Crc.CheckerReset
import PacketBuffering.Crc.Isolation
import PacketBuffering.Crc.Manual
import PacketBuffering.Crc.Parameters
import PacketBuffering.Crc.ReadChannel
import PacketBuffering.Crc.Statistics
import PacketBuffering.Crc.StatusEvents
import PacketBuffering.Crc.Strobes
import PacketBuffering.Crc.Trailing
import PacketBuffering.Fifo.AxisHold
import PacketBuffering.Fifo.ClearSync
import PacketBuffering.Fifo.CpuPop
import PacketBuffering.Fifo.Diag
import PacketBuffering.Fifo.DiagLost
import PacketBuffering.Fifo.ModeSwitch
import PacketBuffering.Fifo.Overflow
import PacketBuffering.Fifo.SlaveLaw
import PacketBuffering.Fifo.SoftReset
import PacketBuffering.Firmware.Dispatch
import PacketBuffering.Firmware.Image
import PacketBuffering.Gpio.Interrupts
import PacketBuffering.Gpio.Linear
import PacketBuffering.Lsu.Ecc
import PacketBuffering.Lsu.Read
import PacketBuffering.Lsu.Relay
import PacketBuffering.Lsu.Write
import PacketBuffering.Master.Sequential
import PacketBuffering.Net.Fair
import PacketBuffering.Periph.Rejected
import PacketBuffering.Periph.Unmapped
import PacketBuffering.Pipeline
import PacketBuffering.Ram.Narrow
import PacketBuffering.Source.Framing
import PacketBuffering.Source.Starts
import PacketBuffering.Timer.OneShot
import PacketBuffering.Timer.Period
import PacketBuffering.Uart.Receives
import PacketBuffering.Uart.Sends
import PacketBuffering.Uart.Wedge

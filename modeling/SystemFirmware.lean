import SystemFirmware.Aiclk.Counters
import SystemFirmware.Aiclk.Sweep
import SystemFirmware.Aiclk.VfCurve
import SystemFirmware.BhArcTelem.Decoder
import SystemFirmware.Cat.Calibration
import SystemFirmware.Cat.GddrThermTrip
import SystemFirmware.CcfgovrUtils.Boot
import SystemFirmware.ClockControl.Grendel
import SystemFirmware.Cm2Dm.FanSpeed
import SystemFirmware.Cm2Dm.RoundRobin
import SystemFirmware.D2d.LoadFw
import SystemFirmware.Dma.ArcHsTransfer
import SystemFirmware.Dma.BhNocStatus
import SystemFirmware.Dma.GrendelSmc
import SystemFirmware.DmcApp.FanHold
import SystemFirmware.DmcApp.Perst
import SystemFirmware.Dvfs.Counters
import SystemFirmware.Dvfs.Disabled
import SystemFirmware.Eth.Heartbeat
import SystemFirmware.FanCtrl.FanCurve
import SystemFirmware.GdbRemote.Memory
import SystemFirmware.Gddr.Reset
import SystemFirmware.GddrCal.TransientErrors
import SystemFirmware.GrendelI3c.Matching
import SystemFirmware.Harvesting.Result
import SystemFirmware.Jtag.UpdateIr
import SystemFirmware.Jtag.XferDr
import SystemFirmware.JtagBootrom.Verify
import SystemFirmware.MsgQueue.Fifo
import SystemFirmware.MsgQueue.Sequential
import SystemFirmware.MsgQueue.Serial
import SystemFirmware.Noc.Programming
import SystemFirmware.Noc.TensixReset
import SystemFirmware.Occp.WriteData
import SystemFirmware.PcieLog.HostBounds
import SystemFirmware.Pldm.Client
import SystemFirmware.PldmOem.Refused
import SystemFirmware.PldmResponder.ResponseFits
import SystemFirmware.Pvt.AverageTemp
import SystemFirmware.Smbus.ReadPec
import SystemFirmware.SpiEeprom.Lock
import SystemFirmware.SpiEeprom.ScratchBuffer
import SystemFirmware.SpiEeprom.SmartWrite
import SystemFirmware.TensixInit.WipeL1
import SystemFirmware.Throttler.Doppler
import SystemFirmware.Throttler.MovingAverage
import SystemFirmware.TtBootFs.Agreement
import SystemFirmware.TtBootFs.Completeness
import SystemFirmware.TtBootFs.IntelHex
import SystemFirmware.TtBootFs.Listing
import SystemFirmware.Vuart.Overflow

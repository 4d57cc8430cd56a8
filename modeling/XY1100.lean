import XY1100.Coap.Arrival
import XY1100.Coap.Block1
import XY1100.Coap.PercentDecoding
import XY1100.Coap.Retransmission
import XY1100.Coap.UriText
import XY1100.Dm.Base64
import XY1100.Dm.Packet
import XY1100.Dm.Registration
import XY1100.Dm.Session
import XY1100.Flash.ByteChange
import XY1100.Flash.FactoryPage
import XY1100.Flash.Ranges
import XY1100.Flash.Wear
import XY1100.Fota.AtSession
import XY1100.Fota.BleStaging
import XY1100.Fota.Chunking
import XY1100.Lwip.CloudSessions
import XY1100.Lwip.Downlink
import XY1100.Lwip.EventRegistry
import XY1100.Lwip.NetifTable
import XY1100.Lwip.PingQueue
import XY1100.Lwip.ResumeMatch
import XY1100.Lwip.Uplink
import XY1100.Lwip.WiresharkQueue
import XY1100.Lwm2m.Tlv
import XY1100.Perf.Rate
import XY1100.Ping.EchoRequest
import XY1100.Ping.Ipv6Run
import XY1100.Ping.Stop
import XY1100.Socket.Deadlock
import XY1100.Socket.Slots
import XY1100.System.DeepSleep
import XY1100.System.Dump
import XY1100.Tlv.Corruption
import XY1100.Uart.AutoBaud
import XY1100.Uart.FillChar
import XY1100.Uart.Recognition
import XY1100.Uart.SampleBounds
import XY1100.Utils.PrintStream

import IotLabTraining.Text
import IotLabTraining.Runs
import IotLabTraining.Traces
import IotLabTraining.Mutexes
import IotLabTraining.Mailboxes
import IotLabTraining.Slices
import IotLabTraining.Buffers
import IotLabTraining.Appends
import IotLabTraining.AdFields
import IotLabTraining.Utf8
import IotLabTraining.Json
import IotLabTraining.JsonText
import IotLabTraining.JsonPrefix
import IotLabTraining.Xml
import IotLabTraining.ScanReport
import IotLabTraining.TxPower
import IotLabTraining.ScanLog
import IotLabTraining.ScanShell
import IotLabTraining.Advertising
import IotLabTraining.VendorData
import IotLabTraining.AutoadvShell
import IotLabTraining.BleScan
import IotLabTraining.UplinkCodec
import IotLabTraining.Base64
import IotLabTraining.LorawanMqtt
import IotLabTraining.TemperatureObject
import IotLabTraining.TemperatureRead
import IotLabTraining.TemperatureReader
import IotLabTraining.Lwm2mShell
import IotLabTraining.GcoapClient
import IotLabTraining.GcoapCommand
import IotLabTraining.GcoapEndpoint
import IotLabTraining.GcoapMessage
import IotLabTraining.Blockwise
import IotLabTraining.BlockwiseProgress
import IotLabTraining.CoapResource
import IotLabTraining.TemperatureResource
import IotLabTraining.ChunksResource
import IotLabTraining.EventResources
import IotLabTraining.MirrorResource
import IotLabTraining.Block1SepBlock2
import IotLabTraining.SeparateResource
import IotLabTraining.ExampleServer
import IotLabTraining.SensorResources
import IotLabTraining.QueryResources
import IotLabTraining.TextResources
import IotLabTraining.SuitTrigger
import IotLabTraining.SlotContent
import IotLabTraining.MessageEncryption
import IotLabTraining.MessageSignature
import IotLabTraining.HashShell
import IotLabTraining.SensorThread
import IotLabTraining.SharedRecord
import IotLabTraining.UartEcho
import IotLabTraining.ThreadIpc
import IotLabTraining.RtcAlarms
import IotLabTraining.ValueResource
import IotLabTraining.CoapServer
import IotLabTraining.CoapExchange
import IotLabTraining.UdpServers
import IotLabTraining.UdpHistory
import IotLabTraining.UdpExchange

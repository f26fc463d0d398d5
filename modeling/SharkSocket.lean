import SharkSocket.Coap.ExchangeLifetime
import SharkSocket.Tcp.SharedFrames
import SharkSocket.Udp.OneSession
import SharkSocket.Udp.TableBound
import SharkSocket.Shared.TaskOnce
import SharkSocket.Lwm2m.Observe
import SharkSocket.Shared.ProxyV2
import SharkSocket.Tcp.WriteBuffer
import SharkSocket.Tcp.Client
import SharkSocket.Infra.Probes
import SharkSocket.Lwm2m.OmaTlv
import SharkSocket.Infra.LogHistory
import SharkSocket.Infra.LogReplay
import SharkSocket.Runtime.SessionCount
import SharkSocket.Runtime.SessionMetrics
import SharkSocket.Lwm2m.LastWrite
import SharkSocket.Runtime.AcceptClose
import SharkSocket.Runtime.Gateway
import SharkSocket.Coap.Acks
import SharkSocket.Quic.Lifecycle
import SharkSocket.GrpcWeb.Slots
import SharkSocket.Plugin.AutoBan
import SharkSocket.Shared.PoolCeiling
import SharkSocket.Coap.MarshalForm
import SharkSocket.Infra.Mqtt
import SharkSocket.Coap.Block2Refusal
import SharkSocket.Tcp.FrameEnds
import SharkSocket.Shared.ProxyV1
import SharkSocket.Coap.Spacing
import SharkSocket.Coap.FailedRequests
import SharkSocket.Coap.MessageIds
import SharkSocket.GrpcWeb.Trailers
import SharkSocket.Lwm2m.TlvGrammar
import SharkSocket.Plugin.BlacklistAccept
import SharkSocket.App.Listeners
import SharkSocket.Infra.Histogram
import SharkSocket.Infra.Samples
import SharkSocket.Infra.PubSub
import SharkSocket.Lwm2m.ResourceValue
import SharkSocket.Plugin.Lifecycle

import GizwitsSdk.OsTmrWheel
import GizwitsSdk.OsTmrSteps
import GizwitsSdk.OsTmrRuns
import GizwitsSdk.StripTimers
import GizwitsSdk.StripTimersRuns
import GizwitsSdk.OsTmr
import GizwitsSdk.OsTimes
import GizwitsSdk.OsFifo
import GizwitsSdk.OsDmemSound
import GizwitsSdk.DhcpOffer
import GizwitsSdk.DhcpPool
import GizwitsSdk.DhcpAck
import GizwitsSdk.DhcpRecv
import GizwitsSdk.MqttRead
import GizwitsSdk.MqttPublish
import GizwitsSdk.P0Frame
import GizwitsSdk.OtaImage
import GizwitsSdk.LanLogin
import GizwitsSdk.McuFrames
import GizwitsSdk.CloudReach
import GizwitsSdk.FlashVerdict
import GizwitsSdk.FlashWrite
import GizwitsSdk.StripRuns
import GizwitsSdk.Onboarding
import GizwitsSdk.HostLookup
import GizwitsSdk.CloudClock
import GizwitsSdk.CloudHeartbeat
import GizwitsSdk.MsgHeap
import GizwitsSdk.PublishBounds
import GizwitsSdk.P0Control
import GizwitsSdk.LanResponses
import GizwitsSdk.UdpServer
import GizwitsSdk.DhcpSticky
import GizwitsSdk.DhcpOptions
import GizwitsSdk.DnsName
import GizwitsSdk.DnsWalk
import GizwitsSdk.DnsServer
import GizwitsSdk.CloudIdentity
import GizwitsSdk.OnboardingParse
import GizwitsSdk.OnboardingRuns
import GizwitsSdk.Param
import GizwitsSdk.WifiCredentials
import GizwitsSdk.SysArch
import GizwitsSdk.StripSchedule
import GizwitsSdk.TimerRuns
import GizwitsSdk.NtpClient
import GizwitsSdk.MqttMsgId
import GizwitsSdk.MqttSeq
import GizwitsSdk.MqttConnect
import GizwitsSdk.LanIdle
import GizwitsSdk.LanNotify
import GizwitsSdk.HttpReply
import GizwitsSdk.CellQueueRuns
import GizwitsSdk.Crc
import GizwitsSdk.LocalName
import GizwitsSdk.RemLen
import GizwitsSdk.Strstr
import GizwitsSdk.MoveMem
import GizwitsSdk.InetChksum
import GizwitsSdk.LwipTimers
import GizwitsSdk.LwipPort

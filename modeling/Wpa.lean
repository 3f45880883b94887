import Wpa.Rsn.Authentication
import Wpa.Rsn.GroupKeys
import Wpa.Rsn.Reinstall
import Wpa.Rsn.Replay
import Wpa.Auth.GroupKeys
import Wpa.Auth.KeyData
import Wpa.Auth.Agreement
import Wpa.Cache.Ptksa
import Wpa.Cache.PmksaAuth
import Wpa.Cache.PmksaSuppOrder
import Wpa.Sae.Comeback
import Wpa.Sae.CommitRoundTrip
import Wpa.Sae.Agreement
import Wpa.Sae.PweReuse
import Wpa.Sae.Acceptance
import Wpa.Ie.WrappedData
import Wpa.Eap.TlsReassembly
import Wpa.Eap.TlsRoundTrip
import Wpa.Radius.Accounting
import Wpa.Rsne.Exact
import Wpa.Rsne.RoundTrip
import Wpa.Common.KdeBounds
import Wpa.EapPeer.Success
import Wpa.Tls.X509
import Wpa.Radius.Verify
import Wpa.Ft.Rrb
import Wpa.Ft.KeyCache
import Wpa.Bss.InUse
import Wpa.Ft.QueueItems
import Wpa.Embox.EventQueue
import Wpa.Embox.Handover
import Wpa.Sim.Milenage
import Wpa.P2p.Algebra
import Wpa.Tls.Asn1Oid
import Wpa.Sim.Codec
import Wpa.Tdls.Reinstall
import Wpa.Embox.Eloop
import Wpa.Freertos.Eloop
import Wpa.Utils.Base64RoundTrip
import Wpa.Utils.BlockAllocRuns
import Wpa.Sae.KeyBuffers
import Wpa.Utils.JsonMember
import Wpa.Embox.EventOwner
import Wpa.Freertos.EventOwner
import Wpa.Ft.Replay
import Wpa.Common.PtkDerivation
import Wpa.Cache.PmksaReconfig
import Wpa.Rsne.WriteBounds
import Wpa.Ie.PasnParameters
import Wpa.Lib.CheckDigit
import Wpa.SaePk.Password
import Wpa.Lib.BitString
import Wpa.SaePk.Base32
import Wpa.SaePk.Fingerprint
import Wpa.Sae.Retransmission
import Wpa.Lib.ReadProg
import Wpa.Ie.Walk
import Wpa.Ft.ParseIes
import Wpa.Lib.InPlace
import Wpa.Rsne.InsertPmkid
import Wpa.Common.ConstTime
import Wpa.Sae.Dragonfly
import Wpa.Sae.HuntAndPeck
import Wpa.Ft.Window
import Wpa.P2p.Copy
import Wpa.Eloop.Reschedule
import Wpa.Bss.FlushByAge
import Wpa.Tls.PathLen
import Wpa.Lib.Chain
import Wpa.Config.PrioList
import Wpa.Lib.Chaining
import Wpa.Radius.MsKeys
import Wpa.Radius.MsKeysRoundTrip
import Wpa.Lib.Text
import Wpa.Utils.Numerals
import Wpa.Ie.CandidateList
import Wpa.Ie.CandidateTokens
import Wpa.Ie.CandidateReports
import Wpa.EapPeer.Retransmission
import Wpa.Tdls.FrameBounds
import Wpa.Random.Pool
import Wpa.Utils.Utf8Escape
import Wpa.Aes.KeyWrap
import Wpa.Utils.Escape
import Wpa.Utils.Printf
import Wpa.Aes.Ccm
import Wpa.Aes.Omac1
import Wpa.Aes.Siv
import Wpa.Aes.Gcm
import Wpa.Utils.JsonBuffer
import Wpa.Wps.AttrReports
import Wpa.Tls.RecordStream

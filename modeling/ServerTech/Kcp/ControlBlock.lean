import ServerTech.Foundation.LittleEndian
import ServerTech.Foundation.Serial

namespace ServerTech
namespace Kcp

/-!
# The KCP control block

`IKCPCB` and `IKCPSEG` of ikcp.h, and the functions of ikcp.c that make a
control block and change its settings.  Words of 32 bits are `UInt32`, a signed
one is `Int32`.  The four queues are lists, and the four counters beside them
are kept as the code keeps them.  The length of a segment is the length of its
data.

The list of acknowledges is its first `ackcount` entries.  The block that holds
them, the user pointer and the log are left out, and so are `ts_recent` and
`ts_lastack`, which nothing reads.  Of the output buffer the control block keeps
the size of its allocated block, a word of 32 bits.  Memory is always granted.
Signed arithmetic goes round, as it does on the machines the code is built for.
-/

/-! ## Words -/

def ikcpRtoNdl : UInt32 := 30
def ikcpRtoMin : UInt32 := 100
def ikcpRtoDef : UInt32 := 200
def ikcpRtoMax : UInt32 := 60000
def ikcpCmdPush : UInt32 := 81
def ikcpCmdAck : UInt32 := 82
def ikcpCmdWask : UInt32 := 83
def ikcpCmdWins : UInt32 := 84
def ikcpAskSend : UInt32 := 1
def ikcpAskTell : UInt32 := 2
def ikcpWndSnd : UInt32 := 32
def ikcpWndRcv : UInt32 := 128
def ikcpMtuDef : UInt32 := 1400
def ikcpInterval : UInt32 := 100
def ikcpOverhead : Nat := 24
def ikcpDeadlink : UInt32 := 20
def ikcpThreshInit : UInt32 := 2
def ikcpThreshMin : UInt32 := 2
def ikcpProbeInit : UInt32 := 7000
def ikcpProbeLimit : UInt32 := 120000
def ikcpFastackLimit : Int32 := 5

/-- `_imin_`. -/
def imin (a b : UInt32) : UInt32 :=
  if a ≤ b then a else b

/-- `_imax_`. -/
def imax (a b : UInt32) : UInt32 :=
  if b ≤ a then a else b

/-- `_ibound_`. -/
def ibound (lower middle upper : UInt32) : UInt32 :=
  imin (imax lower middle) upper

/-- `_itimediff`. -/
def itimediff (later earlier : UInt32) : Int :=
  Serial.difference later earlier

/-! ## Data -/

/-- `IKCPSEG`. -/
structure Ikcpseg where
  conv : UInt32
  cmd : UInt32
  frg : UInt32
  wnd : UInt32
  ts : UInt32
  sn : UInt32
  una : UInt32
  resendts : UInt32
  rto : UInt32
  fastack : UInt32
  xmit : UInt32
  data : List UInt8
  deriving DecidableEq, Repr

/-- A segment of `ikcp_send`.  The fields that it does not set are set by
`ikcp_flush` before they are read. -/
def Ikcpseg.new (frg : UInt32) (data : List UInt8) : Ikcpseg :=
  ⟨0, 0, frg, 0, 0, 0, 0, 0, 0, 0, 0, data⟩

/-- `IKCPCB`. -/
structure Ikcpcb where
  conv : UInt32
  mtu : UInt32
  mss : UInt32
  state : UInt32
  sndUna : UInt32
  sndNxt : UInt32
  rcvNxt : UInt32
  ssthresh : UInt32
  rxRttval : Int32
  rxSrtt : Int32
  rxRto : Int32
  rxMinrto : Int32
  sndWnd : UInt32
  rcvWnd : UInt32
  rmtWnd : UInt32
  cwnd : UInt32
  probe : UInt32
  current : UInt32
  interval : UInt32
  tsFlush : UInt32
  xmit : UInt32
  nrcvBuf : UInt32
  nsndBuf : UInt32
  nrcvQue : UInt32
  nsndQue : UInt32
  nodelay : UInt32
  updated : UInt32
  tsProbe : UInt32
  probeWait : UInt32
  deadLink : UInt32
  incr : UInt32
  sndQueue : List Ikcpseg
  rcvQueue : List Ikcpseg
  sndBuf : List Ikcpseg
  rcvBuf : List Ikcpseg
  acklist : List (UInt32 × UInt32)
  fastresend : Int32
  fastlimit : Int32
  nocwnd : Int32
  stream : Int32
  resendCnt : UInt32
  bufferSize : UInt32
  deriving DecidableEq, Repr

/-- `ikcp_create`. -/
def ikcpCreate (conv : UInt32) : Ikcpcb where
  conv := conv
  mtu := ikcpMtuDef
  mss := ikcpMtuDef - 24
  state := 0
  sndUna := 0
  sndNxt := 0
  rcvNxt := 0
  ssthresh := ikcpThreshInit
  rxRttval := 0
  rxSrtt := 0
  rxRto := ikcpRtoDef.toInt32
  rxMinrto := ikcpRtoMin.toInt32
  sndWnd := ikcpWndSnd
  rcvWnd := ikcpWndRcv
  rmtWnd := ikcpWndRcv
  cwnd := 0
  probe := 0
  current := 0
  interval := ikcpInterval
  tsFlush := ikcpInterval
  xmit := 0
  nrcvBuf := 0
  nsndBuf := 0
  nrcvQue := 0
  nsndQue := 0
  nodelay := 0
  updated := 0
  tsProbe := 0
  probeWait := 0
  deadLink := ikcpDeadlink
  incr := 0
  sndQueue := []
  rcvQueue := []
  sndBuf := []
  rcvBuf := []
  acklist := []
  fastresend := 0
  fastlimit := ikcpFastackLimit
  nocwnd := 0
  stream := 1
  resendCnt := 0
  bufferSize := (ikcpMtuDef + 24) * 3

/-! ## Settings -/

/-- `ikcp_setmtu`. -/
def ikcpSetmtu (kcp : Ikcpcb) (mtu : Int32) : Ikcpcb × Int :=
  if mtu < 50 ∨ mtu < 24 then (kcp, -1)
  else
    ({ kcp with
      mtu := mtu.toUInt32
      mss := mtu.toUInt32 - 24
      bufferSize := (mtu.toUInt32 + 24) * 3 }, 0)

/-- The interval of a call, brought between 10 and 5000. -/
def clampInterval (interval : Int32) : UInt32 :=
  if 5000 < interval then 5000 else if interval < 10 then 10 else interval.toUInt32

/-- `ikcp_interval`. -/
def ikcpIntervalSet (kcp : Ikcpcb) (interval : Int32) : Ikcpcb :=
  { kcp with interval := clampInterval interval }

/-- `ikcp_nodelay`. -/
def ikcpNodelay (kcp : Ikcpcb) (nodelay interval resend nc : Int32) : Ikcpcb :=
  let kcp := if 0 ≤ nodelay then
      { kcp with
        nodelay := nodelay.toUInt32
        rxMinrto := if nodelay = 0 then ikcpRtoMin.toInt32 else ikcpRtoNdl.toInt32 }
    else kcp
  let kcp := if 0 ≤ interval then { kcp with interval := clampInterval interval } else kcp
  let kcp := if 0 ≤ resend then { kcp with fastresend := resend } else kcp
  if 0 ≤ nc then { kcp with nocwnd := nc } else kcp

/-- `ikcp_wndsize`. -/
def ikcpWndsize (kcp : Ikcpcb) (sndwnd rcvwnd : Int32) : Ikcpcb :=
  let kcp := if 0 < sndwnd then { kcp with sndWnd := sndwnd.toUInt32 } else kcp
  if 0 < rcvwnd then { kcp with rcvWnd := imax rcvwnd.toUInt32 ikcpWndRcv } else kcp

/-- `ikcp_waitsnd`. -/
def ikcpWaitsnd (kcp : Ikcpcb) : UInt32 :=
  kcp.nsndBuf + kcp.nsndQue

end Kcp
end ServerTech

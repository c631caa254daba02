import Mathlib.Tactic.SplitIfs
import Mathlib.Tactic.Ring

/-! `v2x_socket` over the frame headers of `utils.h`. Machine integers are the fixed-width types of the
source; the memory behind a captured frame is whatever the capture library left there. -/
namespace Soar.Communication.V2xSocket

def MGN_24M : UInt8 := 0x30

def MAX_PACKET_SIZE : Nat := 1510

def RATE_OFFSET : Nat := 8

def TX_MAC : Nat := 10

def SRC_MAC : Nat := 16

/-- `PCAP_ERROR_BREAK` of the capture library. -/
def PCAP_ERROR_BREAK : Int := -2

def radiotapHeader : List UInt8 :=
  [0x00, 0x00, 0x0b, 0x00, 0x04, 0x0c, 0x00, 0x00, MGN_24M, 0x0c, 0x01]

def ieee80211Header : List UInt8 :=
  [0x08, 0x02, 0x30, 0x00, 0xFF, 0xFF, 0xFF, 0xFF, 0xFF, 0xFF, 0x00, 0x00, 0x00, 0x00, 0x00, 0x00,
    0x00, 0x00, 0x00, 0x00, 0x00, 0x00, 0x00, 0x00]

def llcHeader : List UInt8 := [0xaa, 0xbb, 0xcc, 0xdd]

def HEADER_LENGTH : Nat := radiotapHeader.length + ieee80211Header.length + llcHeader.length

/-- `bytes` with `src` written from place `k` on. -/
def patch (bytes : List UInt8) (k : Nat) (src : List UInt8) : List UInt8 :=
  bytes.take k ++ (src ++ bytes.drop (k + src.length))

theorem length_patch {bytes src : List UInt8} {k : Nat} (h : k + src.length ≤ bytes.length) :
    (patch bytes k src).length = bytes.length := by
  rw [patch, List.length_append, List.length_append, List.length_take_of_le (by omega), List.length_drop]
  omega

/-- A copy into a buffer of `n` bytes that stays inside it. -/
def memcpy {n : Nat} (buf : Vector UInt8 n) (k : Nat) (src : List UInt8) (h : k + src.length ≤ n) :
    Vector UInt8 n :=
  ⟨(patch buf.toList k src).toArray, by
    rw [List.size_toArray, length_patch (by rwa [Vector.length_toList]), Vector.length_toList]⟩

@[simp] theorem toList_memcpy {n : Nat} (buf : Vector UInt8 n) (k : Nat) (src : List UInt8)
    (h : k + src.length ≤ n) : (memcpy buf k src h).toList = patch buf.toList k src := rfl

abbrev TxBuf := Vector UInt8 MAX_PACKET_SIZE

/-- The constructor in `TX_MODE`, over memory that held anything. -/
def initTx (mem : TxBuf) (macAddr : Vector UInt8 6) : TxBuf :=
  let p := 0
  let txBuf := memcpy mem p radiotapHeader (by decide)
  let p := p + radiotapHeader.length
  let txBuf := memcpy txBuf p ieee80211Header (by decide)
  let txBuf := memcpy txBuf (p + TX_MAC) macAddr.toList (by rw [Vector.length_toList]; decide)
  let txBuf := memcpy txBuf (p + SRC_MAC) macAddr.toList (by rw [Vector.length_toList]; decide)
  let p := p + ieee80211Header.length
  memcpy txBuf p llcHeader (by decide)

theorem rateOffset_lt : RATE_OFFSET < MAX_PACKET_SIZE := by decide

/-- How a call of `send` ends: in the failed assertion, in a copy past `tx_buf`, in the thrown
"Unable to inject packet", or with a frame on the air. -/
inductive SendResult where
  | aborted
  | overrun
  | threw (txBuf : TxBuf)
  | sent (txBuf : TxBuf) (frame : List UInt8)

/-- `injected` is what `pcap_inject` returns. -/
def send (txBuf : TxBuf) (data : List UInt8) (dataRate : UInt8) (injected : Int) : SendResult :=
  -- `int total_size`, the size of the data being a `size_t`
  let totalSize := Int.bmod (HEADER_LENGTH + data.length) (2 ^ 32)
  if totalSize ≤ MAX_PACKET_SIZE then
    let txBuf := txBuf.set RATE_OFFSET dataRate rateOffset_lt
    if h : HEADER_LENGTH + data.length ≤ MAX_PACKET_SIZE then
      let txBuf := memcpy txBuf HEADER_LENGTH data h
      if injected = totalSize then .sent txBuf (txBuf.toList.take totalSize.toNat) else .threw txBuf
    else .overrun
  else .aborted

/-- The header of a capture: bytes captured and bytes on the air. -/
structure PcapPkthdr where
  caplen : UInt32
  len : UInt32

/-- `it_len` of the radiotap header at the front of a packet. -/
def itLen (packet : Nat → UInt8) : UInt16 :=
  (packet 2).toUInt16 + (packet 3).toUInt16 * 256

def getSeqNum (payload : Nat → UInt8) : Nat :=
  (payload 22).toNat / 16 ||| (payload 23).toNat * 16

def getMcs (payload : Nat → UInt8) : Nat :=
  (payload 23).toNat / 16

/-- `len - it_len - sizeof(ieee80211_header) - sizeof(llc_header) - 4`: the first difference in 32 bits,
the others in 64, the result signed. -/
def dataSize (len : UInt32) (itLen : UInt16) : Int64 :=
  ((len - itLen.toUInt32).toUInt64 - .ofNat ieee80211Header.length - .ofNat llcHeader.length - 4).toInt64

structure Received where
  data : List UInt8
  dataSize : Int64
  seqno : Nat
  rate : Nat

inductive RecvFailure where
  | pcapReadError
  | assertion
  deriving DecidableEq

/-- `ret`, `pcapHdr` and `packet` are what `pcap_next_ex` returns and stores. -/
def recv (ret : Int) (pcapHdr : PcapPkthdr) (packet : Nat → UInt8) (maxDataSize : UInt64) :
    Except RecvFailure Received :=
  if ret = PCAP_ERROR_BREAK then .error .pcapReadError
  else
    let rate := getMcs packet
    let itLen := itLen packet
    let seqno := getSeqNum fun k => packet (itLen.toNat + k)
    let start := itLen.toNat + ieee80211Header.length + llcHeader.length
    let dataSize := dataSize pcapHdr.len itLen
    -- the signed size is compared and copied as an unsigned one
    if dataSize.toUInt64 ≤ maxDataSize then
      .ok ⟨(List.range dataSize.toUInt64.toNat).map fun k => packet (start + k), dataSize, seqno, rate⟩
    else .error .assertion

/-- The bytes of the frame that were captured. -/
def captured (pcapHdr : PcapPkthdr) (packet : Nat → UInt8) : List UInt8 :=
  (List.range pcapHdr.caplen.toNat).map packet

/-- A call of `recv` on a captured frame does not abort, and what it copies is the payload of the frame. -/
def RecvSound (pcapHdr : PcapPkthdr) (packet : Nat → UInt8) (maxDataSize : UInt64) : Prop :=
  recv 1 pcapHdr packet maxDataSize ≠ .error .assertion ∧
    ∀ r, recv 1 pcapHdr packet maxDataSize = .ok r →
      (r.data.length : Int) = pcapHdr.len.toNat - (itLen packet).toNat - 32 ∧
      r.data.length ≤ maxDataSize.toNat ∧
      r.data = ((captured pcapHdr packet).drop ((itLen packet).toNat + 28)).take r.data.length

/-- The size is computed with wrap-around, first in 32 and then in 64 bits. -/
theorem toNat_dataSize (len : UInt32) (itLen : UInt16) :
    (dataSize len itLen).toUInt64.toNat =
      ((len.toNat + 2 ^ 32 - itLen.toNat) % 2 ^ 32 + 2 ^ 64 - 32) % 2 ^ 64 := by
  have hl := len.toNat_lt
  have hi := itLen.toNat_lt
  have h24 : (UInt64.ofNat ieee80211Header.length).toNat = 24 := rfl
  have h4 : (UInt64.ofNat llcHeader.length).toNat = 4 := rfl
  have h4' : (4 : UInt64).toNat = 4 := rfl
  rw [dataSize, UInt64.toUInt64_toInt64, UInt64.toNat_sub, UInt64.toNat_sub, UInt64.toNat_sub, h24, h4, h4',
    UInt32.toNat_toUInt64, UInt32.toNat_sub, UInt16.toNat_toUInt32]
  omega

/-- The size has not wrapped around exactly when the frame has room for its headers and check sequence. -/
theorem dataSize_eq_iff (len : UInt32) (itLen : UInt16) :
    ((dataSize len itLen).toUInt64.toNat : Int) = len.toNat - itLen.toNat - 32 ↔
      itLen.toNat + 32 ≤ len.toNat := by
  have hl := len.toNat_lt
  have hi := itLen.toNat_lt
  rw [toNat_dataSize]
  omega

/-- Bytes read from memory are bytes of the captured frame exactly when none of them lies behind it. -/
theorem range_map_eq_take_captured_iff (pcapHdr : PcapPkthdr) (packet : Nat → UInt8) (start n : Nat) :
    (List.range n).map (fun k => packet (start + k)) = ((captured pcapHdr packet).drop start).take n ↔
      n = 0 ∨ start + n ≤ pcapHdr.caplen.toNat := by
  constructor
  · intro h
    have hlen := congrArg List.length h
    simp only [captured, List.length_map, List.length_range, List.length_take, List.length_drop] at hlen
    omega
  · rintro (rfl | h)
    · rfl
    · apply List.ext_getElem
      · simp only [captured, List.length_map, List.length_range, List.length_take, List.length_drop]
        omega
      · intro k h1 h2
        simp only [captured, List.getElem_map, List.getElem_range, List.getElem_take, List.getElem_drop]

/-- What `recv` copies when the assertion holds. -/
theorem recv_of_le {pcapHdr : PcapPkthdr} {packet : Nat → UInt8} {maxDataSize : UInt64}
    (h : (dataSize pcapHdr.len (itLen packet)).toUInt64 ≤ maxDataSize) :
    recv 1 pcapHdr packet maxDataSize = .ok
      ⟨(List.range (dataSize pcapHdr.len (itLen packet)).toUInt64.toNat).map
          fun k => packet ((itLen packet).toNat + 28 + k),
        dataSize pcapHdr.len (itLen packet), getSeqNum fun k => packet ((itLen packet).toNat + k),
        getMcs packet⟩ := by
  rw [recv, if_neg (by decide)]
  exact if_pos h

/-- A frame whose data exceed the buffer fails the assertion. -/
theorem recv_of_not_le {pcapHdr : PcapPkthdr} {packet : Nat → UInt8} {maxDataSize : UInt64}
    (h : ¬(dataSize pcapHdr.len (itLen packet)).toUInt64 ≤ maxDataSize) :
    recv 1 pcapHdr packet maxDataSize = .error .assertion := by
  rw [recv, if_neg (by decide)]
  exact if_neg h

/-- `recv` serves a captured frame as it should exactly when the frame has room for its headers and check
sequence, its payload fits the bound, and the payload was captured as a whole. -/
theorem recvSound_iff (pcapHdr : PcapPkthdr) (packet : Nat → UInt8) (maxDataSize : UInt64) :
    RecvSound pcapHdr packet maxDataSize ↔
      (itLen packet).toNat + 32 ≤ pcapHdr.len.toNat ∧
      pcapHdr.len.toNat - (itLen packet).toNat - 32 ≤ maxDataSize.toNat ∧
      (pcapHdr.len.toNat = (itLen packet).toNat + 32 ∨ pcapHdr.len.toNat - 4 ≤ pcapHdr.caplen.toNat) := by
  have hsize := dataSize_eq_iff pcapHdr.len (itLen packet)
  have hle := UInt64.le_iff_toNat_le (a := (dataSize pcapHdr.len (itLen packet)).toUInt64) (b := maxDataSize)
  by_cases hmax : (dataSize pcapHdr.len (itLen packet)).toUInt64 ≤ maxDataSize
  · have hcopy := range_map_eq_take_captured_iff pcapHdr packet ((itLen packet).toNat + 28)
      (dataSize pcapHdr.len (itLen packet)).toUInt64.toNat
    rw [RecvSound, recv_of_le hmax]
    simp only [ne_eq, reduceCtorEq, not_false_eq_true, true_and, Except.ok.injEq, forall_eq', List.length_map,
      List.length_range, hcopy]
    have := hle.mp hmax
    omega
  · -- the assertion fails: a size within the bound would have wrapped around
    rw [RecvSound, recv_of_not_le hmax]
    have := mt hle.mpr hmax
    simp only [ne_eq, not_true_eq_false, false_and, false_iff]
    omega

/-- A frame of another sender: 1500 bytes behind a radiotap header of 36 bytes. -/
private def oversized (k : Nat) : UInt8 := if k = 2 then 36 else 0

/-- The frame is longer than what the receiver asks for, and the assertion ends the process. -/
theorem not_recvSound_oversized :
    ¬∀ (pcapHdr : PcapPkthdr) (packet : Nat → UInt8) (maxDataSize : UInt64),
      RecvSound pcapHdr packet maxDataSize := by
  intro h
  exact (h ⟨1500, 1500⟩ oversized 1032).1 (recv_of_not_le (by decide))

end Soar.Communication.V2xSocket

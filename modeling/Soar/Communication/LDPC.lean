import Soar.Communication.FiniteField

/-! `LDPC.h`, `LDPC.cpp` and `RandGenerator.h`: the packet header, the seeded coefficient
stream, the encoder and the decoder of one batch. -/
namespace Soar.Communication
open Soar.Library

def kMaxCodingSize : Nat := 100

/-- The generator holds a `std::mt19937`, an arbitrary stream of its seed. -/
structure RandGenerator where
  seed : Nat
  drawn : Nat

def RandGenerator.reseed (_ : RandGenerator) (s : Nat) : RandGenerator := ⟨s, 0⟩

/-- `randInt(n)`: the next 32-bit output modulo `n`. -/
def RandGenerator.randInt (mt19937 : Nat → Nat → UInt32) (g : RandGenerator) (n : Nat) :
    Nat × RandGenerator :=
  ((mt19937 g.seed g.drawn).toNat % n, { g with drawn := g.drawn + 1 })

/-- The packed header of five bytes, with the bit-fields `coefId:6, nin:5, nout:5`. -/
structure CodingHdr where
  nodeId : Fin (2 ^ 8)
  batchId : Fin (2 ^ 16)
  coefId : Fin (2 ^ 6)
  nin : Fin (2 ^ 5)
  nout : Fin (2 ^ 5)
  deriving DecidableEq, Repr

def sizeofCodingHdr : Nat := 5

/-- A little-endian `uint16_t`. -/
def uint16At (pkt : Buffer) (k : Nat) : Nat := (pkt k).toNat + 256 * (pkt (k + 1)).toNat

theorem uint16At_lt (pkt : Buffer) (k : Nat) : uint16At pkt k < 2 ^ 16 := by
  have hl := (pkt k).toNat_lt
  have hh := (pkt (k + 1)).toNat_lt
  simp only [uint16At]
  omega

def setUint16 (pkt : Buffer) (k v : Nat) : Buffer :=
  Function.update (Function.update pkt k (.ofNat v)) (k + 1) (.ofNat (v / 256))

/-- Assigns the `width` bits from `shift` on of the `uint16_t` that holds the bit-fields. -/
def setBits (pkt : Buffer) (shift width v : Nat) : Buffer :=
  let half := uint16At pkt 3
  setUint16 pkt 3
    (half % 2 ^ shift + v % 2 ^ width * 2 ^ shift + half / 2 ^ (shift + width) * 2 ^ (shift + width))

namespace CodingHdr

def read (pkt : Buffer) : CodingHdr where
  nodeId := ⟨(pkt 0).toNat, (pkt 0).toNat_lt⟩
  batchId := ⟨uint16At pkt 1, uint16At_lt pkt 1⟩
  coefId := ⟨uint16At pkt 3 % 2 ^ 6, Nat.mod_lt _ (by decide)⟩
  nin := ⟨uint16At pkt 3 / 2 ^ 6 % 2 ^ 5, Nat.mod_lt _ (by decide)⟩
  nout := ⟨uint16At pkt 3 / 2 ^ 11, by have := uint16At_lt pkt 3; omega⟩

def setNodeId (pkt : Buffer) (v : Nat) : Buffer := Function.update pkt 0 (.ofNat v)
def setBatchId (pkt : Buffer) (v : Nat) : Buffer := setUint16 pkt 1 v
def setCoefId (pkt : Buffer) (v : Nat) : Buffer := setBits pkt 0 6 v
def setNin (pkt : Buffer) (v : Nat) : Buffer := setBits pkt 6 5 v
def setNout (pkt : Buffer) (v : Nat) : Buffer := setBits pkt 11 5 v

end CodingHdr

/-- `pkt + sizeof(CodingHdr)`. -/
def payload (pkt : Buffer) : Buffer := fun k => pkt (sizeofCodingHdr + k)

/-- Replaces the payload and keeps the header. -/
def setPayload (pkt v : Buffer) : Buffer :=
  fun k => if k < sizeofCodingHdr then pkt k else v (k - sizeofCodingHdr)

def memcpy (dst src : Buffer) (size : Nat) : Buffer := fun k => if k < size then src k else dst k

/-- The coder's matrices keep what earlier batches left in them. `Y` holds which packet's
payload an entry points to. -/
structure LDPC where
  psrand : RandGenerator
  G : RowTable kMaxCodingSize Buffer
  A : RowTable kMaxCodingSize Nat
  Y : RowTable kMaxCodingSize Nat

def newMat (n : Nat) : RowTable n Buffer := ⟨fun _ _ => 0⟩

def LDPC.new : LDPC := ⟨⟨0, 0⟩, newMat kMaxCodingSize, ⟨id⟩, ⟨id⟩⟩

section
variable (mt19937 : Nat → Nat → UInt32)

/-- The first loop of `decode`: rows `0, ..., nin - 1` of G become the identity. -/
def sourceRows (nin : Nat) (G : RowTable kMaxCodingSize Buffer) : Option (RowTable kMaxCodingSize Buffer) :=
  forUpM 0 nin (fun i G => do
    let g ← G.get? i
    G.set? i (Function.update (memset g nin) i 1)) G

/-- The nested loop of `decode` over the coefficients of the parity rows. -/
def parityRows (nin nout : Nat) (s : RandGenerator × RowTable kMaxCodingSize Buffer) :
    Option (RandGenerator × RowTable kMaxCodingSize Buffer) :=
  forUpM 0 nin (fun i s => forUpM 0 nout (fun j s => do
    let (c, psrand) := s.1.randInt mt19937 FIELD_SIZE
    let g ← s.2.get? (j + nin)
    let G ← s.2.set? (j + nin) (Function.update g i (.ofNat c))
    some (psrand, G)) s) s

/-- The loop of `decode` that points A at rows of G and Y at payloads. -/
def selectRows (inputPkts : RowTable kMaxCodingSize Buffer) (G : RowTable kMaxCodingSize Buffer)
    (numInput : Nat) (s : RowTable kMaxCodingSize Nat × RowTable kMaxCodingSize Nat) :
    Option (RowTable kMaxCodingSize Nat × RowTable kMaxCodingSize Nat) :=
  forUpM 0 numInput (fun i s => do
    let pkt ← inputPkts.get? i
    let hdr := CodingHdr.read pkt
    let _ ← G.get? hdr.coefId
    let A ← s.1.set? i hdr.coefId
    let Y ← s.2.set? i i
    some (A, Y)) s

structure Decoded where
  ok : Bool
  coder : LDPC
  inputPkts : RowTable kMaxCodingSize Buffer
  outputPkts : RowTable kMaxCodingSize Buffer

/-- Fails where a row index leaves one of the tables. -/
def LDPC.decode (coder : LDPC) (inputPkts outputPkts : RowTable kMaxCodingSize Buffer)
    (numInput pktSize : Nat) : Option Decoded := do
  let pkt ← inputPkts.get? 0
  let hdr := CodingHdr.read pkt
  let nin : Nat := hdr.nin
  let nout : Nat := hdr.nout
  let psrand := coder.psrand.reseed hdr.batchId
  let G ← sourceRows nin coder.G
  let (psrand, G) ← parityRows mt19937 nin nout (psrand, G)
  let (A, Y) ← selectRows inputPkts G numInput (coder.A, coder.Y)
  let (rank, mat, outputPkts) ←
    gaussianSolve ⟨A.row, G.row⟩ (fun i => payload (inputPkts.row (Y.row i))) outputPkts nin numInput pktSize
  some ⟨decide (nin ≤ rank), ⟨psrand, ⟨mat.buf⟩, ⟨mat.ptr⟩, Y⟩, inputPkts, outputPkts⟩

/-- An entry of the table `outputPkts`: its buffer, or bytes that a `memset` over the table
has overwritten, through which nothing may be accessed. -/
inductive PktPtr where
  | buffer (b : Nat)
  | overwritten
  deriving DecidableEq, Repr

/-- The table of `nin + nout` packet pointers, of eight bytes each, and the packet buffers. -/
structure OutputPkts (n : Nat) where
  table : RowTable n PktPtr
  buf : Nat → Buffer

namespace OutputPkts
variable {n : Nat}

/-- `memset(outputPkts, 0, size)`: the destination is the pointer table itself. -/
def memsetTable (pkts : OutputPkts n) (size : Nat) : Option (OutputPkts n) :=
  if size ≤ 8 * n then
    some { pkts with table := ⟨fun k => if 8 * k < size then .overwritten else pkts.table.row k⟩ }
  else none

/-- Updates the packet `outputPkts[j]`. -/
def modify (pkts : OutputPkts n) (j : Nat) (f : Buffer → Buffer) : Option (OutputPkts n) := do
  match ← pkts.table.get? j with
  | .buffer b => some { pkts with buf := Function.update pkts.buf b (f (pkts.buf b)) }
  | .overwritten => none

end OutputPkts

/-- The header assignments of `encode`. -/
def writeHdr (batchId j nin nout : Nat) (pkt : Buffer) : Buffer :=
  CodingHdr.setNout (CodingHdr.setNin (CodingHdr.setCoefId (CodingHdr.setBatchId pkt batchId) j) nin) nout

/-- The first loop of `encode`. -/
def writeHdrs {n : Nat} (batchId pktSize nin nout : Nat) (pkts : OutputPkts n) : Option (OutputPkts n) :=
  forUpM 0 (nin + nout) (fun j pkts => do
    let pkts ← pkts.memsetTable (pktSize + sizeofCodingHdr)
    pkts.modify j (writeHdr batchId j nin nout)) pkts

/-- The second loop of `encode`: the source packets are copied. -/
def copySources {n : Nat} (inputPkts : RowTable kMaxCodingSize Buffer) (pktSize nin : Nat)
    (pkts : OutputPkts n) : Option (OutputPkts n) :=
  forUpM 0 nin (fun i pkts => do
    let src ← inputPkts.get? i
    pkts.modify i (fun pkt => setPayload pkt (memcpy (payload pkt) src pktSize))) pkts

/-- The nested loop of `encode`: every source packet is added into every parity packet. -/
def addSources {n : Nat} (inputPkts : RowTable kMaxCodingSize Buffer) (pktSize nin nout : Nat)
    (s : RandGenerator × OutputPkts n) : Option (RandGenerator × OutputPkts n) :=
  forUpM 0 nin (fun i s => do
    let src ← inputPkts.get? i
    forUpM 0 nout (fun j s => do
      let (c, psrand) := s.1.randInt mt19937 FIELD_SIZE
      let pkts ← s.2.modify (j + nin) (fun pkt => setPayload pkt (addMulVec (payload pkt) src (.ofNat c) pktSize))
      some (psrand, pkts)) s) s

/-- Fails where it accesses memory that is none of its packets. -/
def LDPC.encode {n : Nat} (coder : LDPC) (inputPkts : RowTable kMaxCodingSize Buffer) (outputPkts : OutputPkts n)
    (batchId pktSize nin nout : Nat) : Option (LDPC × OutputPkts n) := do
  let psrand := coder.psrand.reseed batchId
  let pkts ← writeHdrs batchId pktSize nin nout outputPkts
  let pkts ← copySources inputPkts pktSize nin pkts
  let (psrand, pkts) ← addSources mt19937 inputPkts pktSize nin nout (psrand, pkts)
  some ({ coder with psrand := psrand }, pkts)

end
end Soar.Communication

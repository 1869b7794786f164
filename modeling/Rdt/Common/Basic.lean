import Mathlib.Algebra.Order.Group.Nat

/-! # Constants, addresses and sequence numbers -/

namespace Rdt

abbrev Bytes := List UInt8

/-- A reading of `time()`, in microseconds. -/
abbrev Time := Nat

inductive ProtocolType where
  | stopAndWait
  | goBackN
deriving DecidableEq, Repr

/-! ## `constants.py` -/

def socketConnectionLostTimeout : Time := 30000000
def socketRetransmissionTimeout : Time := 15000
def maxRetransmissionAttempts : Nat := 300

def windowSize : Nat := 10
def socketRetransmitWindowTimeout : Time := 10000

def fullBufferSize : Nat := 3072
def commsBufferSize : Nat := 2048

def downloadOperation : Nat := 1
def uploadOperation : Nat := 2

def historicalMtu : Nat := 1500
def maxIpHeaderSize : Nat := 60
def udpHeaderSize : Nat := 8
def sawProtocolHeaderSize : Nat := 6
def gbnProtocolHeaderSize : Nat := 16

def fileChunkSizeSaw : Nat :=
  historicalMtu - maxIpHeaderSize - udpHeaderSize - sawProtocolHeaderSize

def fileChunkSizeGbn : Nat :=
  historicalMtu - maxIpHeaderSize - udpHeaderSize - gbnProtocolHeaderSize

/-! ## `address.py` -/

/-- A UDP endpoint.  The operating system only hands out 16-bit ports. -/
structure Address where
  host : String
  port : UInt16
deriving DecidableEq, Repr

namespace Address

def toCombined (a : Address) : String := a.host ++ ":" ++ a.port.toNat.repr

private theorem colon_notMem_digits (n : Nat) : ':' ∉ Nat.toDigits 10 n := fun h ↦
  absurd (Nat.isDigit_of_mem_toDigits (by decide) (by decide) h) (by decide)

/-- The text after the last colon is determined by the whole text. -/
private theorem append_colon_inj {l₁ l₂ d₁ d₂ : List Char} (h₁ : ':' ∉ d₁) (h₂ : ':' ∉ d₂)
    (h : l₁ ++ ':' :: d₁ = l₂ ++ ':' :: d₂) : l₁ = l₂ ∧ d₁ = d₂ := by
  rcases List.append_eq_append_iff.mp h with ⟨a, rfl, ha⟩ | ⟨a, rfl, ha⟩
  · cases a with
    | nil => simpa using ha
    | cons c a =>
        simp only [List.cons_append, List.cons.injEq] at ha
        exact absurd (by rw [ha.2]; simp) h₁
  · cases a with
    | nil => simpa [eq_comm] using ha
    | cons c a =>
        simp only [List.cons_append, List.cons.injEq] at ha
        exact absurd (by rw [ha.2]; simp) h₂

/-- Two endpoints with one combined name are the same endpoint. -/
theorem toCombined_injective {a b : Address} (h : a.toCombined = b.toCombined) : a = b := by
  have hl := congrArg String.toList h
  simp only [toCombined, String.toList_append, Nat.toList_repr, List.append_assoc] at hl
  obtain ⟨hhost, hport⟩ := append_colon_inj (colon_notMem_digits _) (colon_notMem_digits _) hl
  have hn : a.port.toNat = b.port.toNat := by
    have := congrArg (Nat.ofDigitChars 10 · 0) hport
    simpa [Nat.ofDigitChars_ten_toDigits] using this
  cases a
  cases b
  simp only [Address.mk.injEq]
  exact ⟨String.toList_injective hhost, UInt16.toNat_inj.mp hn⟩

@[simp] theorem toCombined_inj {a b : Address} : a.toCombined = b.toCombined ↔ a = b :=
  ⟨toCombined_injective, fun h ↦ h ▸ rfl⟩

end Address

/-- An endpoint that datagrams can be sent to. -/
structure Peer extends Address where
  reachable : port ≠ 0
deriving DecidableEq, Repr

namespace Peer

instance : Coe Peer Address := ⟨toAddress⟩

theorem toAddress_injective {a b : Peer} (h : a.toAddress = b.toAddress) : a = b := by
  cases a
  cases b
  cases h
  rfl

end Peer

/-! ## `sequence_number.py` -/

def maxSequenceNumber : Nat := 2000000000

structure SequenceNumber where
  value : Nat
  protocol : ProtocolType
deriving DecidableEq, Repr

namespace SequenceNumber

def stepSaw (v : Nat) : Nat := if v = 0 then 1 else 0

def stepGbn (v : Nat) : Nat := if v ≤ maxSequenceNumber then v + 1 else 1

def step (s : SequenceNumber) : SequenceNumber :=
  match s.protocol with
  | .stopAndWait => { s with value := stepSaw s.value }
  | .goBackN => { s with value := stepGbn s.value }

@[simp] theorem step_protocol (s : SequenceNumber) : s.step.protocol = s.protocol := by
  unfold step
  split <;> rfl

@[simp] theorem step_mk_saw (v : Nat) :
    step ⟨v, .stopAndWait⟩ = ⟨stepSaw v, .stopAndWait⟩ := rfl

@[simp] theorem step_mk_gbn (v : Nat) : step ⟨v, .goBackN⟩ = ⟨stepGbn v, .goBackN⟩ := rfl

theorem stepGbn_of_le {v : Nat} (h : v ≤ maxSequenceNumber) : stepGbn v = v + 1 := if_pos h

theorem stepGbn_le (v : Nat) : stepGbn v ≤ maxSequenceNumber + 1 := by
  unfold stepGbn maxSequenceNumber
  split <;> omega

@[simp] theorem stepSaw_zero : stepSaw 0 = 1 := rfl

@[simp] theorem stepSaw_one : stepSaw 1 = 0 := rfl

theorem stepSaw_mod (v : Nat) : stepSaw (v % 2) = (v + 1) % 2 := by
  show (if v % 2 = 0 then 1 else 0) = (v + 1) % 2
  split <;> omega

theorem step_value_lt (s : SequenceNumber) : s.step.value < 2 ^ 32 := by
  unfold step
  split
  · dsimp only
    unfold stepSaw
    split <;> decide
  · exact Nat.lt_of_le_of_lt (stepGbn_le s.value) (by decide)

theorem step_value_le (s : SequenceNumber) : s.step.value ≤ s.value + 1 := by
  unfold step
  split
  · dsimp only
    unfold stepSaw
    split <;> omega
  · dsimp only
    unfold stepGbn
    split <;> omega

theorem stepSaw_lt (v : Nat) : stepSaw v < 2 := by
  unfold stepSaw
  split <;> decide

end SequenceNumber

end Rdt

import PeerApi.Base.FirstReturn
import Mathlib.Data.Nat.Bitwise

/-! The UTF-8 validator of the websocket library, through which every text message goes.
It is a table-driven automaton whose accepting state is its initial one, so what it
accepts is a sequence of its first returns, and these are the encodings of the Unicode
scalar values: nothing overlong, no surrogate, nothing beyond 0x10ffff. In between, it
rejects a byte exactly when no continuation could be accepted any more. -/

namespace PeerApi.Websocket

open Base
open scoped Computability

/-- `utf8_accept`. -/
def utf8Accept : ℕ := 0

/-- `utf8_reject`. -/
def utf8Reject : ℕ := 1

/-- `utf8d`: the type of each byte, then the transitions by state and type. -/
def utf8d : List ℕ := [
  0,0,0,0,0,0,0,0,0,0,0,0,0,0,0,0,0,0,0,0,0,0,0,0,0,0,0,0,0,0,0,0,
  0,0,0,0,0,0,0,0,0,0,0,0,0,0,0,0,0,0,0,0,0,0,0,0,0,0,0,0,0,0,0,0,
  0,0,0,0,0,0,0,0,0,0,0,0,0,0,0,0,0,0,0,0,0,0,0,0,0,0,0,0,0,0,0,0,
  0,0,0,0,0,0,0,0,0,0,0,0,0,0,0,0,0,0,0,0,0,0,0,0,0,0,0,0,0,0,0,0,
  1,1,1,1,1,1,1,1,1,1,1,1,1,1,1,1,9,9,9,9,9,9,9,9,9,9,9,9,9,9,9,9,
  7,7,7,7,7,7,7,7,7,7,7,7,7,7,7,7,7,7,7,7,7,7,7,7,7,7,7,7,7,7,7,7,
  8,8,2,2,2,2,2,2,2,2,2,2,2,2,2,2,2,2,2,2,2,2,2,2,2,2,2,2,2,2,2,2,
  0xa,0x3,0x3,0x3,0x3,0x3,0x3,0x3,0x3,0x3,0x3,0x3,0x3,0x4,0x3,0x3,
  0xb,0x6,0x6,0x6,0x5,0x8,0x8,0x8,0x8,0x8,0x8,0x8,0x8,0x8,0x8,0x8,
  0x0,0x1,0x2,0x3,0x5,0x8,0x7,0x1,0x1,0x1,0x4,0x6,0x1,0x1,0x1,0x1,
  1,1,1,1,1,1,1,1,1,1,1,1,1,1,1,1,1,0,1,1,1,1,1,0,1,0,1,1,1,1,1,1,
  1,2,1,1,1,1,1,2,1,2,1,1,1,1,1,1,1,1,1,1,1,1,1,2,1,1,1,1,1,1,1,1,
  1,2,1,1,1,1,1,1,1,2,1,1,1,1,1,1,1,1,1,1,1,1,1,3,1,3,1,1,1,1,1,1,
  1,3,1,1,1,1,1,3,1,3,1,1,1,1,1,1,1,3,1,1,1,1,1,1,1,1,1,1,1,1,1,1]

/-- The type of a byte. -/
def byteType (byte : ℕ) : ℕ := utf8d.getD byte 0

def nextState (state byte : ℕ) : ℕ := utf8d.getD (256 + state * 16 + byteType byte) 0

/-- The new code point, of 32 bits. -/
def nextCodepoint (state codep byte : ℕ) : ℕ :=
  if state ≠ utf8Accept then (byte &&& 0x3f) ||| (codep <<< 6) % 2 ^ 32
  else (0xff >>> byteType byte) &&& byte

/-- The `validator`. -/
structure Validator where
  state : ℕ := utf8Accept
  codepoint : ℕ := 0
  deriving DecidableEq, Repr

namespace Validator

/-- `utf8_validator::decode` on the state of the validator. -/
def consume (v : Validator) (byte : UInt8) : Validator :=
  ⟨nextState v.state byte.toNat, nextCodepoint v.state v.codepoint byte.toNat⟩

/-- `decode`: it stops at the first byte that is rejected. -/
def decode (v : Validator) : List UInt8 → Validator × Bool
  | [] => (v, true)
  | byte :: bytes =>
    if (v.consume byte).state = utf8Reject then (v.consume byte, false)
    else (v.consume byte).decode bytes

def complete (v : Validator) : Bool := v.state = utf8Accept

end Validator

def validate (s : List UInt8) : Bool :=
  let (v, valid) := ({} : Validator).decode s
  if valid then v.complete else false

/-! ### The automaton -/

/-- A transition of bytes from `lo` up to `hi`; the others are rejected. -/
def ranged (lo hi state byte : ℕ) : ℕ := if lo ≤ byte ∧ byte < hi then state else utf8Reject

/-- What the table says. -/
def transition : ℕ → ℕ → ℕ
  | 0, byte =>
    if byte < 0x80 then 0 else if byte < 0xc2 then 1 else if byte < 0xe0 then 2
    else if byte = 0xe0 then 4 else if byte = 0xed then 5 else if byte < 0xf0 then 3
    else if byte = 0xf0 then 6 else if byte < 0xf4 then 7 else if byte = 0xf4 then 8 else 1
  | 2, byte => ranged 0x80 0xc0 0 byte
  | 3, byte => ranged 0x80 0xc0 2 byte
  | 4, byte => ranged 0xa0 0xc0 2 byte
  | 5, byte => ranged 0x80 0xa0 2 byte
  | 6, byte => ranged 0x90 0xc0 3 byte
  | 7, byte => ranged 0x80 0xc0 3 byte
  | 8, byte => ranged 0x80 0x90 3 byte
  | _, _ => 1

/-- The type of a byte by its range. -/
def rangeType (byte : ℕ) : ℕ :=
  if byte < 0x80 then 0 else if byte < 0x90 then 1 else if byte < 0xa0 then 9
  else if byte < 0xc0 then 7 else if byte < 0xc2 then 8 else if byte < 0xe0 then 2
  else if byte = 0xe0 then 10 else if byte = 0xed then 4 else if byte < 0xf0 then 3
  else if byte = 0xf0 then 11 else if byte < 0xf4 then 6 else if byte = 0xf4 then 5 else 8

theorem byteType_eq : ∀ byte < 256, byteType byte = rangeType byte := by decide +kernel

/-- The rows of the table, each as the types it admits and where they lead. -/
def row : ℕ → ℕ → ℕ
  | 0, type => [0, 1, 2, 3, 5, 8, 7, 1, 1, 1, 4, 6].getD type 1
  | 2, type => if type = 1 ∨ type = 7 ∨ type = 9 then 0 else 1
  | 3, type => if type = 1 ∨ type = 7 ∨ type = 9 then 2 else 1
  | 4, type => if type = 7 then 2 else 1
  | 5, type => if type = 1 ∨ type = 9 then 2 else 1
  | 6, type => if type = 7 ∨ type = 9 then 3 else 1
  | 7, type => if type = 1 ∨ type = 7 ∨ type = 9 then 3 else 1
  | 8, type => if type = 1 then 3 else 1
  | _, _ => 1

theorem row_eq : ∀ state < 9, ∀ type < 12,
    utf8d.getD (256 + state * 16 + type) 0 = row state type := by
  decide +kernel

theorem row_rangeType : ∀ state < 9, ∀ byte < 256,
    row state (rangeType byte) = transition state byte := by
  decide +kernel

theorem rangeType_lt : ∀ byte < 256, rangeType byte < 12 := by decide +kernel

theorem nextState_eq (state : ℕ) (hs : state < 9) (byte : ℕ) (hb : byte < 256) :
    nextState state byte = transition state byte := by
  rw [nextState, byteType_eq byte hb, row_eq state hs _ (rangeType_lt byte hb),
    row_rangeType state hs byte hb]

/-- The automaton on bytes. -/
def advance (state : ℕ) (byte : UInt8) : ℕ := nextState state byte.toNat

theorem advance_eq {state : ℕ} (h : state < 9) (byte : UInt8) :
    advance state byte = transition state byte.toNat :=
  nextState_eq state h byte.toNat byte.toNat_lt

theorem advance_lt {state : ℕ} (h : state < 9) (byte : UInt8) : advance state byte < 9 := by
  have hlt : ∀ state < 9, ∀ byte < 256, transition state byte < 9 := by decide +kernel
  rw [advance_eq h]
  exact hlt state h byte.toNat byte.toNat_lt

theorem foldl_advance_lt {state : ℕ} (h : state < 9) (s : List UInt8) :
    s.foldl advance state < 9 := by
  induction s generalizing state with
  | nil => exact h
  | cons byte s ih => exact ih (advance_lt h byte)

/-- The automaton never leaves the rejecting state. -/
theorem foldl_advance_reject (s : List UInt8) : s.foldl advance utf8Reject = utf8Reject := by
  induction s with
  | nil => rfl
  | cons byte s ih =>
    rw [List.foldl_cons, advance_eq (by decide)]
    exact ih

theorem not_firstReturn_reject (w : List UInt8) :
    ¬ FirstReturn advance utf8Accept utf8Reject w := by
  intro h
  have heq := h.foldl_eq
  rw [foldl_advance_reject] at heq
  cases heq

/-- The validator runs the automaton, up to the first rejection. -/
theorem decode_state (v : Validator) (s : List UInt8) :
    (v.decode s).2 = true ∧ (v.decode s).1.state = s.foldl advance v.state ∧
        (s ≠ [] → s.foldl advance v.state ≠ utf8Reject) ∨
      (v.decode s).2 = false ∧ s.foldl advance v.state = utf8Reject := by
  induction s generalizing v with
  | nil => exact Or.inl ⟨rfl, rfl, fun h => absurd rfl h⟩
  | cons byte s ih =>
    have hstate : (v.consume byte).state = advance v.state byte := rfl
    rw [Validator.decode, List.foldl_cons]
    split_ifs with hr
    · refine Or.inr ⟨rfl, ?_⟩
      rw [← hstate, hr, foldl_advance_reject]
    · rcases ih (v.consume byte) with ⟨h1, h2, h3⟩ | ⟨h1, h2⟩
      · refine Or.inl ⟨h1, h2, fun _ => ?_⟩
        cases s with
        | nil => exact hr
        | cons b s => exact h3 (by simp)
      · exact Or.inr ⟨h1, h2⟩

theorem Validator.decode_append (v : Validator) (s t : List UInt8) :
    v.decode (s ++ t) = if (v.decode s).2 then (v.decode s).1.decode t else v.decode s := by
  induction s generalizing v with
  | nil => rfl
  | cons byte s ih =>
    rw [List.cons_append, Validator.decode, Validator.decode]
    by_cases hr : (v.consume byte).state = utf8Reject
    · rw [if_pos hr, if_pos hr]
      rfl
    · rw [if_neg hr, if_neg hr, ih]

theorem decode_eq_true (s : List UInt8) :
    ((({} : Validator).decode s).2 = true) ↔ s.foldl advance utf8Accept ≠ utf8Reject := by
  rcases decode_state {} s with ⟨h1, -, h3⟩ | ⟨h1, h2⟩
  · refine ⟨fun _ => ?_, fun _ => h1⟩
    cases s with
    | nil => decide
    | cons b s => exact h3 (by simp)
  · rw [h1]
    exact ⟨fun h => (by cases h), fun h => absurd h2 h⟩

theorem validate_eq_true (s : List UInt8) :
    validate s = true ↔ s.foldl advance utf8Accept = utf8Accept := by
  unfold validate
  dsimp only
  rcases decode_state {} s with ⟨h1, h2, -⟩ | ⟨h1, h2⟩
  · simp only [h1, if_true, Validator.complete, h2, decide_eq_true_eq]
  · have h2' : s.foldl advance utf8Accept = utf8Reject := h2
    rw [h1, h2', if_neg (by decide)]
    decide

/-! ### One code point -/

/-- The encoding of one Unicode scalar value. -/
def encodings : Language UInt8 := {w | ∃ c, String.utf8EncodeChar c = w}

/-- A first return from a state that admits bytes of one range. -/
theorem firstReturn_ranged {state lo hi target : ℕ} (hstate : state < 9)
    (h : ∀ byte, transition state byte = ranged lo hi target byte) {w : List UInt8} :
    FirstReturn advance utf8Accept state w ↔ ∃ byte u, w = byte :: u ∧ lo ≤ byte.toNat ∧
      byte.toNat < hi ∧ (target = utf8Accept ∧ u = [] ∨
        target ≠ utf8Accept ∧ FirstReturn advance utf8Accept target u) := by
  have hstep (byte : UInt8) : advance state byte = ranged lo hi target byte.toNat :=
    (advance_eq hstate byte).trans (h _)
  constructor
  · intro hw
    cases hw with
    | @last _ byte hlast =>
      rw [hstep] at hlast
      unfold ranged at hlast
      split_ifs at hlast with hr
      · exact ⟨byte, [], rfl, hr.1, hr.2, Or.inl ⟨hlast, rfl⟩⟩
      · cases hlast
    | @step _ byte u hne hrest =>
      rw [hstep] at hne hrest
      unfold ranged at hne hrest
      split_ifs at hne hrest with hr
      · exact ⟨byte, u, rfl, hr.1, hr.2, Or.inr ⟨hne, hrest⟩⟩
      · exact absurd hrest (not_firstReturn_reject u)
  · rintro ⟨byte, u, rfl, hlo, hhi, hu⟩
    have htarget : advance state byte = target := by
      rw [hstep]
      exact if_pos ⟨hlo, hhi⟩
    rcases hu with ⟨ht, rfl⟩ | ⟨ht, hu⟩
    · exact .last (htarget.trans ht)
    · exact .step (htarget ▸ ht) (htarget.symm ▸ hu)

/-- One more byte of the form `10xxxxxx`. -/
theorem firstReturn_one {w : List UInt8} : FirstReturn advance utf8Accept 2 w ↔
    ∃ b, w = [b] ∧ 0x80 ≤ b.toNat ∧ b.toNat < 0xc0 := by
  rw [firstReturn_ranged (by decide) fun _ => rfl]
  constructor
  · rintro ⟨b, u, rfl, hlo, hhi, ⟨-, rfl⟩ | ⟨h, -⟩⟩
    · exact ⟨b, rfl, hlo, hhi⟩
    · exact absurd rfl h
  · rintro ⟨b, rfl, hlo, hhi⟩
    exact ⟨b, [], rfl, hlo, hhi, Or.inl ⟨rfl, rfl⟩⟩

/-- Two more bytes, of which the first has its own range. -/
theorem firstReturn_two {state lo hi : ℕ} (hstate : state < 9)
    (h : ∀ byte, transition state byte = ranged lo hi 2 byte) {w : List UInt8} :
    FirstReturn advance utf8Accept state w ↔ ∃ a b, w = [a, b] ∧ lo ≤ a.toNat ∧ a.toNat < hi ∧
      0x80 ≤ b.toNat ∧ b.toNat < 0xc0 := by
  rw [firstReturn_ranged hstate h]
  constructor
  · rintro ⟨a, u, rfl, hlo, hhi, ⟨h, -⟩ | ⟨-, hu⟩⟩
    · cases h
    · obtain ⟨b, rfl, hb⟩ := firstReturn_one.mp hu
      exact ⟨a, b, rfl, hlo, hhi, hb⟩
  · rintro ⟨a, b, rfl, hlo, hhi, hb⟩
    exact ⟨a, [b], rfl, hlo, hhi, Or.inr ⟨by decide, firstReturn_one.mpr ⟨b, rfl, hb⟩⟩⟩

/-- Three more bytes, of which the first has its own range. -/
theorem firstReturn_three {state lo hi : ℕ} (hstate : state < 9)
    (h : ∀ byte, transition state byte = ranged lo hi 3 byte) {w : List UInt8} :
    FirstReturn advance utf8Accept state w ↔ ∃ a b c, w = [a, b, c] ∧ lo ≤ a.toNat ∧
      a.toNat < hi ∧ 0x80 ≤ b.toNat ∧ b.toNat < 0xc0 ∧ 0x80 ≤ c.toNat ∧ c.toNat < 0xc0 := by
  have h3 : ∀ byte, transition 3 byte = ranged 0x80 0xc0 2 byte := fun _ => rfl
  rw [firstReturn_ranged hstate h]
  constructor
  · rintro ⟨a, u, rfl, hlo, hhi, ⟨h, -⟩ | ⟨-, hu⟩⟩
    · cases h
    · obtain ⟨b, c, rfl, hbc⟩ := (firstReturn_two (by decide) h3).mp hu
      exact ⟨a, b, c, rfl, hlo, hhi, by omega⟩
  · rintro ⟨a, b, c, rfl, hlo, hhi, hbc⟩
    exact ⟨a, [b, c], rfl, hlo, hhi, Or.inr ⟨by decide,
      (firstReturn_two (by decide) h3).mpr ⟨b, c, rfl, by omega⟩⟩⟩

/-- The numbers of the bytes determine the encoding. -/
theorem exists_char {v : ℕ} (h : v < 0xd800 ∨ 0xdfff < v ∧ v < 0x110000) {w : List UInt8}
    (hw : ∀ c : Char, c.val.toNat = v → String.utf8EncodeChar c = w) : w ∈ encodings := by
  refine ⟨Char.ofNatAux v h, hw _ ?_⟩
  rfl

theorem ofNat_eq {n : ℕ} {b : UInt8} (h : n = b.toNat) : UInt8.ofNat n = b := by
  rw [h, UInt8.ofNat_toNat]

/-- The first byte of a longer encoding. -/
theorem firstReturn_cons {byte : UInt8} (state : ℕ) {u : List UInt8}
    (h : transition 0 byte.toNat = state) (hne : state ≠ utf8Accept)
    (hu : FirstReturn advance utf8Accept state u) :
    FirstReturn advance utf8Accept utf8Accept (byte :: u) := by
  have hstep : advance utf8Accept byte = state := (advance_eq (by decide) byte).trans h
  exact .step (hstep ▸ hne) (hstep.symm ▸ hu)

/-- What the first byte says about the rest. -/
theorem transition_first : ∀ byte < 256,
    byte < 0x80 ∧ transition 0 byte = 0 ∨
    0xc2 ≤ byte ∧ byte < 0xe0 ∧ transition 0 byte = 2 ∨
    byte = 0xe0 ∧ transition 0 byte = 4 ∨
    byte = 0xed ∧ transition 0 byte = 5 ∨
    0xe0 < byte ∧ byte < 0xf0 ∧ byte ≠ 0xed ∧ transition 0 byte = 3 ∨
    byte = 0xf0 ∧ transition 0 byte = 6 ∨
    0xf0 < byte ∧ byte < 0xf4 ∧ transition 0 byte = 7 ∨
    byte = 0xf4 ∧ transition 0 byte = 8 ∨
    (0x80 ≤ byte ∧ byte < 0xc2 ∨ 0xf4 < byte) ∧ transition 0 byte = 1 := by
  decide +kernel

/-! The scalar value is computed from the bytes, whose ranges make it a valid one. -/

theorem encoding_one {a : UInt8} (ha : a.toNat < 0x80) : [a] ∈ encodings := by
  refine exists_char (v := a.toNat) (by omega) fun c hc => ?_
  unfold String.utf8EncodeChar
  dsimp only
  rw [hc, if_pos (by omega), ofNat_eq rfl]

theorem encoding_two {a b : UInt8} (ha : 0xc2 ≤ a.toNat ∧ a.toNat < 0xe0)
    (hb : 0x80 ≤ b.toNat ∧ b.toNat < 0xc0) : [a, b] ∈ encodings := by
  refine exists_char (v := (a.toNat - 0xc0) * 64 + (b.toNat - 0x80)) (by omega) fun c hc => ?_
  unfold String.utf8EncodeChar
  dsimp only
  rw [hc, if_neg (by omega), if_pos (by omega), ofNat_eq (b := a) (by omega),
    ofNat_eq (b := b) (by omega)]

theorem encoding_three {a b c : UInt8} (ha : 0xe0 ≤ a.toNat ∧ a.toNat < 0xf0)
    (hb : 0x80 ≤ b.toNat ∧ b.toNat < 0xc0) (hc : 0x80 ≤ c.toNat ∧ c.toNat < 0xc0)
    (hlow : a.toNat = 0xe0 → 0xa0 ≤ b.toNat) (hsur : a.toNat = 0xed → b.toNat < 0xa0) :
    [a, b, c] ∈ encodings := by
  refine exists_char (v := (a.toNat - 0xe0) * 4096 + (b.toNat - 0x80) * 64 + (c.toNat - 0x80))
    (by omega) fun ch hch => ?_
  unfold String.utf8EncodeChar
  dsimp only
  rw [hch, if_neg (by omega), if_neg (by omega), if_pos (by omega), ofNat_eq (b := a) (by omega),
    ofNat_eq (b := b) (by omega), ofNat_eq (b := c) (by omega)]

theorem encoding_four {a b c d : UInt8} (ha : 0xf0 ≤ a.toNat ∧ a.toNat ≤ 0xf4)
    (hb : 0x80 ≤ b.toNat ∧ b.toNat < 0xc0) (hc : 0x80 ≤ c.toNat ∧ c.toNat < 0xc0)
    (hd : 0x80 ≤ d.toNat ∧ d.toNat < 0xc0) (hlow : a.toNat = 0xf0 → 0x90 ≤ b.toNat)
    (hhigh : a.toNat = 0xf4 → b.toNat < 0x90) : [a, b, c, d] ∈ encodings := by
  refine exists_char (v := (a.toNat - 0xf0) * 262144 + (b.toNat - 0x80) * 4096 +
    (c.toNat - 0x80) * 64 + (d.toNat - 0x80)) (by omega) fun ch hch => ?_
  unfold String.utf8EncodeChar
  dsimp only
  rw [hch, if_neg (by omega), if_neg (by omega), if_neg (by omega), ofNat_eq (b := a) (by omega),
    ofNat_eq (b := b) (by omega), ofNat_eq (b := c) (by omega), ofNat_eq (b := d) (by omega)]

theorem encoding_of_firstReturn {w : List UInt8}
    (h : FirstReturn advance utf8Accept utf8Accept w) : w ∈ encodings := by
  cases h with
  | @last _ byte hlast =>
    rw [advance_eq (by decide)] at hlast
    rcases transition_first byte.toNat byte.toNat_lt with
      ⟨hb, -⟩ | ⟨-, -, ht⟩ | ⟨-, ht⟩ | ⟨-, ht⟩ | ⟨-, -, -, ht⟩ | ⟨-, ht⟩ | ⟨-, -, ht⟩ | ⟨-, ht⟩ |
        ⟨-, ht⟩
    · exact encoding_one hb
    all_goals
      rw [utf8Accept, ht] at hlast
      cases hlast
  | @step _ byte u hne hrest =>
    rw [advance_eq (by decide)] at hne hrest
    rcases transition_first byte.toNat byte.toNat_lt with
      ⟨hb, ht⟩ | ⟨h1, h2, ht⟩ | ⟨hb, ht⟩ | ⟨hb, ht⟩ | ⟨h1, h2, h3, ht⟩ | ⟨hb, ht⟩ | ⟨h1, h2, ht⟩ |
        ⟨hb, ht⟩ | ⟨hb, ht⟩
    · exact absurd ht hne
    all_goals
      rw [utf8Accept, ht] at hrest
    · obtain ⟨b, rfl, hb⟩ := firstReturn_one.mp hrest
      exact encoding_two ⟨h1, h2⟩ hb
    · obtain ⟨b, c, rfl, hbc⟩ := (firstReturn_two (by decide) fun _ => rfl).mp hrest
      exact encoding_three (by omega) (by omega) (by omega) (by omega) (by omega)
    · obtain ⟨b, c, rfl, hbc⟩ := (firstReturn_two (by decide) fun _ => rfl).mp hrest
      exact encoding_three (by omega) (by omega) (by omega) (by omega) (by omega)
    · obtain ⟨b, c, rfl, hbc⟩ := (firstReturn_two (by decide) fun _ => rfl).mp hrest
      exact encoding_three (by omega) (by omega) (by omega) (by omega) (by omega)
    · obtain ⟨b, c, d, rfl, hbcd⟩ := (firstReturn_three (by decide) fun _ => rfl).mp hrest
      exact encoding_four (by omega) (by omega) (by omega) (by omega) (by omega) (by omega)
    · obtain ⟨b, c, d, rfl, hbcd⟩ := (firstReturn_three (by decide) fun _ => rfl).mp hrest
      exact encoding_four (by omega) (by omega) (by omega) (by omega) (by omega) (by omega)
    · obtain ⟨b, c, d, rfl, hbcd⟩ := (firstReturn_three (by decide) fun _ => rfl).mp hrest
      exact encoding_four (by omega) (by omega) (by omega) (by omega) (by omega) (by omega)
    · exact absurd hrest (not_firstReturn_reject u)

/-! And back: the bytes of an encoding are in the ranges of the automaton. -/

theorem toNat_ofNat_of_lt {n : ℕ} (h : n < 256) : (UInt8.ofNat n).toNat = n := by
  rw [UInt8.toNat_ofNat', Nat.mod_eq_of_lt h]

theorem firstReturn_two_bytes {a b : UInt8} (ha : 0xc2 ≤ a.toNat ∧ a.toNat < 0xe0)
    (hb : 0x80 ≤ b.toNat ∧ b.toNat < 0xc0) :
    FirstReturn advance utf8Accept utf8Accept [a, b] := by
  have ht : transition 0 a.toNat = 2 := by
    have h := transition_first a.toNat a.toNat_lt
    omega
  exact firstReturn_cons 2 ht (by decide) (firstReturn_one.mpr ⟨b, rfl, hb⟩)

theorem firstReturn_three_bytes {a b c : UInt8} (ha : 0xe0 ≤ a.toNat ∧ a.toNat < 0xf0)
    (hb : 0x80 ≤ b.toNat ∧ b.toNat < 0xc0) (hc : 0x80 ≤ c.toNat ∧ c.toNat < 0xc0)
    (hlow : a.toNat = 0xe0 → 0xa0 ≤ b.toNat) (hsur : a.toNat = 0xed → b.toNat < 0xa0) :
    FirstReturn advance utf8Accept utf8Accept [a, b, c] := by
  have h := transition_first a.toNat a.toNat_lt
  by_cases h1 : a.toNat = 0xe0
  · exact firstReturn_cons 4 (by omega) (by decide)
      ((firstReturn_two (by decide) fun _ => rfl).mpr ⟨b, c, rfl, hlow h1, hb.2, hc⟩)
  · by_cases h2 : a.toNat = 0xed
    · exact firstReturn_cons 5 (by omega) (by decide)
        ((firstReturn_two (by decide) fun _ => rfl).mpr ⟨b, c, rfl, hb.1, hsur h2, hc⟩)
    · exact firstReturn_cons 3 (by omega) (by decide)
        ((firstReturn_two (by decide) fun _ => rfl).mpr ⟨b, c, rfl, hb.1, hb.2, hc⟩)

theorem firstReturn_four_bytes {a b c d : UInt8} (ha : 0xf0 ≤ a.toNat ∧ a.toNat ≤ 0xf4)
    (hb : 0x80 ≤ b.toNat ∧ b.toNat < 0xc0) (hc : 0x80 ≤ c.toNat ∧ c.toNat < 0xc0)
    (hd : 0x80 ≤ d.toNat ∧ d.toNat < 0xc0) (hlow : a.toNat = 0xf0 → 0x90 ≤ b.toNat)
    (hhigh : a.toNat = 0xf4 → b.toNat < 0x90) :
    FirstReturn advance utf8Accept utf8Accept [a, b, c, d] := by
  have h := transition_first a.toNat a.toNat_lt
  by_cases h1 : a.toNat = 0xf0
  · exact firstReturn_cons 6 (by omega) (by decide)
      ((firstReturn_three (by decide) fun _ => rfl).mpr
        ⟨b, c, d, rfl, hlow h1, hb.2, hc.1, hc.2, hd⟩)
  · by_cases h2 : a.toNat = 0xf4
    · exact firstReturn_cons 8 (by omega) (by decide)
        ((firstReturn_three (by decide) fun _ => rfl).mpr
          ⟨b, c, d, rfl, hb.1, hhigh h2, hc.1, hc.2, hd⟩)
    · exact firstReturn_cons 7 (by omega) (by decide)
        ((firstReturn_three (by decide) fun _ => rfl).mpr
          ⟨b, c, d, rfl, hb.1, hb.2, hc.1, hc.2, hd⟩)

theorem firstReturn_of_encoding {w : List UInt8} (h : w ∈ encodings) :
    FirstReturn advance utf8Accept utf8Accept w := by
  obtain ⟨c, rfl⟩ := h
  have hvalid : c.val.toNat < 0xd800 ∨ 0xdfff < c.val.toNat ∧ c.val.toNat < 0x110000 := c.valid
  unfold String.utf8EncodeChar
  dsimp only
  generalize c.val.toNat = v at hvalid ⊢
  have hlast := toNat_ofNat_of_lt (n := v % 64 + 0x80) (by omega)
  have hmiddle := toNat_ofNat_of_lt (n := v / 64 % 64 + 0x80) (by omega)
  split_ifs with h1 h2 h3
  · have ha := toNat_ofNat_of_lt (n := v) (by omega)
    refine .last ((advance_eq (by decide) _).trans ?_)
    have h := transition_first v (by omega)
    rw [ha, utf8Accept]
    omega
  · have ha := toNat_ofNat_of_lt (n := v / 64 % 32 + 0xc0) (by omega)
    exact firstReturn_two_bytes (by omega) (by omega)
  · have ha := toNat_ofNat_of_lt (n := v / 4096 % 16 + 0xe0) (by omega)
    exact firstReturn_three_bytes (by omega) (by omega) (by omega) (by omega) (by omega)
  · have ha := toNat_ofNat_of_lt (n := v / 262144 % 8 + 0xf0) (by omega)
    have hb := toNat_ofNat_of_lt (n := v / 4096 % 64 + 0x80) (by omega)
    exact firstReturn_four_bytes (by omega) (by omega) (by omega) (by omega) (by omega) (by omega)

theorem firstReturns_eq : firstReturns advance utf8Accept = encodings :=
  Set.ext fun _ => ⟨encoding_of_firstReturn, firstReturn_of_encoding⟩

/-! ### Strings -/

/-- The bytes of a text: the encodings of a sequence of Unicode scalar values. -/
def IsText (s : List UInt8) : Prop := ∃ cs : List Char, s = cs.flatMap String.utf8EncodeChar

theorem foldl_advance_iff (s : List UInt8) :
    s.foldl advance utf8Accept = utf8Accept ↔ IsText s := by
  rw [foldl_eq_iff_mem_kstar, firstReturns_eq, Language.mem_kstar]
  constructor
  · rintro ⟨ws, rfl, hws⟩
    choose c hc using hws
    refine ⟨ws.attach.map fun w => c w.1 w.2, ?_⟩
    rw [List.flatMap_map]
    have hmap : ws.attach.map (fun w => String.utf8EncodeChar (c w.1 w.2)) = ws := by
      simp only [hc, List.attach_map_subtype_val]
    rw [List.flatMap_def, hmap]
  · rintro ⟨cs, rfl⟩
    refine ⟨cs.map String.utf8EncodeChar, List.flatMap_def .., fun w hw => ?_⟩
    obtain ⟨c, -, rfl⟩ := List.mem_map.mp hw
    exact ⟨c, rfl⟩

/-- The validator accepts exactly the encodings of sequences of Unicode scalar values. -/
theorem validate_iff (s : List UInt8) : validate s = true ↔ IsText s := by
  rw [validate_eq_true, foldl_advance_iff]

/-- From every state but the rejecting one there is a way back. -/
theorem exists_completion : ∀ state < 9, state ≠ utf8Reject →
    ∃ t : List UInt8, t.foldl advance state = utf8Accept := by
  have h : ∀ state < 9, state ≠ utf8Reject →
      ∃ t ∈ ([[], [0x80], [0x80, 0x80], [0xa0, 0x80], [0x80, 0x80, 0x80], [0x90, 0x80, 0x80]] :
        List (List UInt8)), t.foldl advance state = utf8Accept := by decide +kernel
  intro state hstate hne
  obtain ⟨t, -, ht⟩ := h state hstate hne
  exact ⟨t, ht⟩

/-- The automaton rejects at the first byte after which the bytes cannot be continued to
a text, and not before. -/
theorem foldl_advance_ne_reject_iff (s : List UInt8) :
    s.foldl advance utf8Accept ≠ utf8Reject ↔ ∃ t, IsText (s ++ t) := by
  constructor
  · intro h
    obtain ⟨t, ht⟩ := exists_completion _ (foldl_advance_lt (by decide) s) h
    refine ⟨t, (foldl_advance_iff _).mp ?_⟩
    rw [List.foldl_append, ht]
  · rintro ⟨t, hcs⟩ hr
    have hv := (foldl_advance_iff _).mpr hcs
    rw [List.foldl_append, hr, foldl_advance_reject] at hv
    cases hv

/-- The validator reads on exactly as long as what it has read is the beginning of a text. -/
theorem decode_iff (s : List UInt8) :
    (({} : Validator).decode s).2 = true ↔ ∃ t, IsText (s ++ t) := by
  rw [decode_eq_true, foldl_advance_ne_reject_iff]

/-- The validator of a text of which `s` has been read. -/
theorem Validator.decode_of_state {v : Validator} {s : List UInt8}
    (hv : v.state = s.foldl advance utf8Accept) (hs : s.foldl advance utf8Accept ≠ utf8Reject)
    (t : List UInt8) :
    ((v.decode t).2 = true ↔ ∃ u, IsText (s ++ t ++ u)) ∧
      ((v.decode t).2 = true → (v.decode t).1.state = (s ++ t).foldl advance utf8Accept) := by
  rw [← foldl_advance_ne_reject_iff, List.foldl_append, ← hv]
  rcases decode_state v t with ⟨h1, h2, h3⟩ | ⟨h1, h2⟩
  · refine ⟨⟨fun _ => ?_, fun _ => h1⟩, fun _ => h2⟩
    cases t with
    | nil => exact hv ▸ hs
    | cons b t => exact h3 (by simp)
  · rw [h1, h2]
    exact ⟨⟨fun h => (by cases h), fun h => absurd rfl h⟩, fun h => (by cases h)⟩

end PeerApi.Websocket

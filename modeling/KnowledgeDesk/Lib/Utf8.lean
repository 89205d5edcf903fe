import Mathlib.Data.List.Basic

/-!
# UTF-8 in pieces

The encoding of a text, and decoders that take it read by read: what a decoder gives for a read is what the
bytes so far complete. `Reassembles` is what a user of one relies on, and `stepwise` is one that does: it
keeps the bytes of the character that has begun.
-/

namespace Utf8

/-- The bytes of a text. -/
def encode (text : List Char) : List UInt8 := text.flatMap String.utf8EncodeChar

/-- A decoder with a state. -/
structure Decoder where
  State : Type
  start : State
  decode : State → List UInt8 → List Char × State

namespace Decoder

/-- The texts a decoder gives for the reads, one for each. -/
def texts (d : Decoder) (st : d.State) : List (List UInt8) → List (List Char)
  | [] => []
  | value :: reads => (d.decode st value).1 :: d.texts (d.decode st value).2 reads

/-- However the bytes of a text are cut into reads, the decoder gives the text. A byte order mark at the
start is not part of a text. -/
def Reassembles (d : Decoder) : Prop :=
  ∀ (text : List Char) (reads : List (List UInt8)), text.head? ≠ some '\uFEFF' →
    reads.flatten = encode text → (d.texts d.start reads).flatten = text

end Decoder

/-- The character that the bytes are the encoding of, if they begin with one. -/
def decodeChar? (bytes : List UInt8) : Option Char := ByteArray.utf8DecodeChar? bytes.toByteArray 0

/-- One byte after the pending ones. -/
def next (pending : List UInt8) (byte : UInt8) : List Char × List UInt8 :=
  match decodeChar? (pending ++ [byte]) with
  | some c => ([c], [])
  | none => ([], pending ++ [byte])

/-- Bytes after the pending ones. -/
def nexts : List UInt8 → List UInt8 → List Char × List UInt8
  | pending, [] => ([], pending)
  | pending, byte :: bytes =>
    let r := next pending byte
    let rs := nexts r.2 bytes
    (r.1 ++ rs.1, rs.2)

/-- The decoder that keeps the bytes of the character that has begun. -/
def stepwise : Decoder := ⟨List UInt8, [], nexts⟩

theorem decodeChar?_encode (c : Char) : decodeChar? (String.utf8EncodeChar c) = some c := by
  have h := @ByteArray.utf8DecodeChar?_utf8EncodeChar_append ByteArray.empty c
  rwa [ByteArray.append_empty] at h

/-- A character is not read before its last byte. -/
theorem decodeChar?_partial {c : Char} {p q : List UInt8} (h : p ++ q = String.utf8EncodeChar c)
    (hq : q ≠ []) : decodeChar? p = none := by
  cases hp : decodeChar? p with
  | none => rfl
  | some c' =>
    have hlonger : decodeChar? (p ++ q) = some c' := by
      rw [decodeChar?, List.toByteArray_append]
      exact ByteArray.utf8DecodeChar?_append_eq_some hp _
    rw [h, decodeChar?_encode] at hlonger
    obtain rfl := Option.some.inj hlonger
    have hsize := ByteArray.le_size_of_utf8DecodeChar?_eq_some hp
    have hlen := congrArg List.length h
    have hpos := List.length_pos_of_ne_nil hq
    rw [List.length_append, String.length_utf8EncodeChar] at hlen
    rw [List.size_toByteArray] at hsize
    omega

/-- The pending bytes of a character and the ones to come make the character. -/
theorem nexts_encode {c : Char} (q : List UInt8) : ∀ p, p ++ q = String.utf8EncodeChar c → q ≠ [] →
    ∀ bytes, nexts p (q ++ bytes) = (c :: (nexts [] bytes).1, (nexts [] bytes).2) := by
  induction q with
  | nil => exact fun p _ hq => absurd rfl hq
  | cons byte q ih =>
    intro p h _ bytes
    rw [List.append_cons] at h
    by_cases hq : q = []
    · subst hq
      have hlast : next p byte = ([c], []) := by
        rw [List.append_nil] at h
        rw [next, h, decodeChar?_encode]
      rw [List.cons_append, nexts, hlast]
      rfl
    · have hmore : next p byte = ([], p ++ [byte]) := by
        rw [next, decodeChar?_partial h hq]
      rw [List.cons_append, nexts, hmore, ih (p ++ [byte]) h hq bytes]
      rfl

theorem nexts_encode_text (text : List Char) : nexts [] (encode text) = (text, []) := by
  induction text with
  | nil => rfl
  | cons c text ih =>
    have hc := nexts_encode (String.utf8EncodeChar c) [] (List.nil_append _) String.utf8EncodeChar_ne_nil
      (encode text)
    rw [ih] at hc
    exact hc

theorem nexts_append (p bytes bytes' : List UInt8) : nexts p (bytes ++ bytes') =
    ((nexts p bytes).1 ++ (nexts (nexts p bytes).2 bytes').1, (nexts (nexts p bytes).2 bytes').2) := by
  induction bytes generalizing p with
  | nil => rfl
  | cons byte bytes ih => rw [List.cons_append, nexts, nexts, ih, List.append_assoc]

theorem texts_stepwise (reads : List (List UInt8)) (p : List UInt8) :
    (stepwise.texts p reads).flatten = (nexts p reads.flatten).1 := by
  induction reads generalizing p with
  | nil => rfl
  | cons value reads ih =>
    rw [List.flatten_cons, nexts_append, ← ih (nexts p value).2]
    rfl

theorem stepwise_reassembles : stepwise.Reassembles := by
  intro text reads _ hreads
  show (stepwise.texts [] reads).flatten = text
  rw [texts_stepwise, hreads, nexts_encode_text]

end Utf8

import LedgerClient.Proofs.Escapes
import LedgerClient.Proofs.TextParts
import LedgerClient.Text.Form

/-! Reading a query as pairs undoes writing it, for any keys and values. What is
written holds only characters that no part of a URL escapes. -/

namespace LedgerClient.Form
open Percent (forall_octet)

/-- The characters of a query that was written. -/
def isWritten (c : Char) : Bool :=
  c.toNat < 0x80 && (c.isAlphanum || ['*', '-', '.', '_', '+', '%'].contains c)

def blank (c : Char) : Char := if c = '+' then ' ' else c

/-- The octets that stand for themselves once plus signs are read as blanks. -/
def keepsRead (octet : UInt8) : Bool := keeps octet || octet = 32

private theorem written_encodeOctet (octet : UInt8) : (encodeOctet octet).all isWritten = true :=
  forall_octet (p := fun octet => (encodeOctet octet).all isWritten = true) (by decide +kernel) octet

private theorem blank_encodeOctet (octet : UInt8) : (encodeOctet octet).map blank =
    if keepsRead octet then [Char.ofNat octet.toNat] else Percent.spell octet :=
  forall_octet (p := fun octet => (encodeOctet octet).map blank =
    if keepsRead octet then [Char.ofNat octet.toNat] else Percent.spell octet) (by decide +kernel) octet

private theorem plain_keepsRead : Percent.Plain keepsRead where
  ascii := forall_octet (p := fun octet => keepsRead octet = true → octet.toNat < 0x80) (by decide +kernel)
  percent := by decide

private theorem written_encodeText {text : String} : ∀ c ∈ encodeText text, isWritten c = true := by
  intro c inside
  obtain ⟨octet, _, inside⟩ := List.mem_flatMap.mp inside
  exact List.all_eq_true.mp (written_encodeOctet octet) c inside

private theorem decodeText_encodeText (text : String) : decodeText (encodeText text) = text := by
  have blanks : (encodeText text).map blank = Percent.encode keepsRead text.toList := by
    rw [encodeText, List.map_flatMap]
    simp only [blank_encodeOctet]
    rfl
  have read : decodeText (encodeText text) =
      String.ofList (Utf8.decodeLossy (Percent.decode (Utf8.encode ((encodeText text).map blank)))) := rfl
  rw [read, blanks, Percent.encode, Percent.decode_encodeOctets plain_keepsRead, Utf8.decodeLossy_encode,
    String.ofList_toList]

private theorem decodePair_encodePair (pair : String × String) : decodePair (encodePair pair) = pair := by
  have plain : ∀ c ∈ encodeText pair.1, decide (c ≠ '=') = true := by
    intro c inside
    have written := written_encodeText c inside
    refine decide_eq_true fun same => ?_
    rw [same] at written
    cases written
  have key : (encodePair pair).takeWhile (· ≠ '=') = encodeText pair.1 := by
    rw [encodePair, List.takeWhile_append_of_pos plain]
    simp
  have value : (encodePair pair).dropWhile (· ≠ '=') = '=' :: encodeText pair.2 := by
    rw [encodePair, List.dropWhile_append_of_pos plain]
    simp
  rw [decodePair, key, value, List.drop_one, List.tail_cons, decodeText_encodeText, decodeText_encodeText]

private theorem written_encodePair {pair : String × String} : ∀ c ∈ encodePair pair, isWritten c = true ∨ c = '=' := by
  intro c inside
  rcases List.mem_append.mp inside with inside | inside
  · exact .inl (written_encodeText c inside)
  · rcases List.mem_cons.mp inside with same | inside
    · exact .inr same
    · exact .inl (written_encodeText c inside)

theorem written_encode {pairs : List (String × String)} :
    ∀ c ∈ encode pairs, isWritten c = true ∨ c = '=' ∨ c = '&' := by
  induction pairs with
  | nil => exact fun c inside => nomatch inside
  | cons pair pairs ih =>
    intro c inside
    cases pairs with
    | nil => exact (written_encodePair c inside).imp_right .inl
    | cons next pairs =>
      rcases List.mem_append.mp inside with inside | inside
      · exact (written_encodePair c inside).imp_right .inl
      · rcases List.mem_cons.mp inside with same | inside
        · exact .inr (.inr same)
        · exact ih c inside

theorem splitOn_encode (pair : String × String) (pairs : List (String × String)) :
    Text.splitOn '&' (encode (pair :: pairs)) = (pair :: pairs).map encodePair := by
  have free : ∀ pair, Text.Free (· = '&') (encodePair pair) := by
    intro pair c inside
    refine decide_eq_false fun same => ?_
    rcases written_encodePair c inside with written | other
    · rw [same] at written
      cases written
    · rw [same] at other
      cases other
  induction pairs generalizing pair with
  | nil => exact Text.splitBy_free (free pair)
  | cons next pairs ih =>
    have rest := ih next
    rw [Text.splitOn] at rest
    have joined : encode (pair :: next :: pairs) = encodePair pair ++ '&' :: encode (next :: pairs) := rfl
    rw [joined, Text.splitOn, Text.splitBy_append (free pair) (decide_eq_true rfl), rest]
    rfl

theorem decode_encode (pairs : List (String × String)) : decode (encode pairs) = pairs := by
  cases pairs with
  | nil => rfl
  | cons pair pairs =>
    have filled : ∀ part ∈ (pair :: pairs).map encodePair, decide (part ≠ []) = true := by
      intro part present
      obtain ⟨pair, _, rfl⟩ := List.mem_map.mp present
      exact decide_eq_true (List.append_ne_nil_of_right_ne_nil _ (List.cons_ne_nil _ _))
    rw [decode, splitOn_encode, List.filter_eq_self.mpr filled, List.map_map]
    refine (List.map_congr_left fun pair _ => ?_).trans (List.map_id _)
    exact decodePair_encodePair pair

end LedgerClient.Form

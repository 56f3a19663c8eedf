import LedgerClient.Proofs.Escapes
import LedgerClient.Proofs.TextParts
import LedgerClient.Url.Parser

/-! The path of an address that was read. For the schemes of the web it is a list of
segments, never empty, and no character in a segment could end it. -/

namespace LedgerClient.Url
open Percent

/-- The schemes that requests can be sent to. -/
def IsWeb (url : Url) : Prop := url.scheme = "http" ∨ url.scheme = "https"

theorem IsWeb.special {url : Url} (web : url.IsWeb) : isSpecial url.scheme = true := by
  rcases web with same | same <;> rw [same] <;> decide

theorem IsWeb.not_file {url : Url} (web : url.IsWeb) : isFile url.scheme = false := by
  rcases web with same | same <;> rw [same] <;> decide

/-- A character that may stand inside a segment. -/
def InSegment (c : Char) : Prop :=
  c.toNat < 0x80 ∧ keptInPath (UInt8.ofNat c.toNat) = true ∧ c ≠ '/'

/-- Paths as reading leaves them. -/
structure Tidy (path : List String) : Prop where
  nonempty : path ≠ []
  inside : ∀ segment ∈ path, ∀ c ∈ segment.toList, InSegment c

theorem inSegment_hexDigit : ∀ n < 16, InSegment (hexDigit n) := by
  simp only [InSegment]
  decide

private theorem inSegment_encode {text : List Char} (free : '/' ∉ text) :
    ∀ c ∈ Percent.encode keptInPath text, InSegment c := by
  apply forall_mem_encode (p := InSegment) (fun octet kept => visibleBut_ascii kept)
  · exact ⟨by decide, by decide, by decide⟩
  · exact inSegment_hexDigit
  · intro octet kept present
    have value := toNat_char_of_ascii (visibleBut_ascii kept)
    refine ⟨?_, ?_, fun slash => free (slash ▸ present)⟩
    · rw [value]
      exact visibleBut_ascii kept
    · rwa [value, UInt8.ofNat_toNat]

private theorem mem_drop_concat {path : List String} {last segment : String} {n : Nat}
    (present : segment ∈ (path ++ [last]).drop n) : segment ∈ path.drop n ∨ segment = last := by
  rw [List.drop_append] at present
  rcases List.mem_append.mp present with present | present
  · exact .inl present
  · exact .inr (List.mem_singleton.mp (List.mem_of_mem_drop present))

private theorem mem_parent {path : List String} {segment : String} {n : Nat}
    (present : segment ∈ (parent path).drop n) : segment ∈ path.drop n := by
  rw [parent] at present
  split at present
  · split at present
    · exact present
    · rw [List.dropLast_eq_take, List.drop_take] at present
      exact List.mem_of_mem_take present
  · rw [List.drop_nil] at present
    cases present

/-- Entering a part puts only the part or an empty segment behind any place of the path. -/
theorem mem_enter {path : List String} {part : List Char} {last : Bool} {segment : String} {n : Nat}
    (present : segment ∈ (enter path part last).drop n) :
    segment ∈ path.drop n ∨ segment = "" ∨ segment = String.ofList part := by
  have ending : ∀ front : List String, segment ∈ (front ++ if last then [""] else []).drop n →
      segment ∈ front.drop n ∨ segment = "" := by
    intro front present
    split at present
    · exact mem_drop_concat present
    · rw [List.append_nil] at present
      exact .inl present
  rw [enter] at present
  split at present
  · rcases ending _ present with present | empty
    · exact .inl (mem_parent present)
    · exact .inr (.inl empty)
  split at present
  · rcases ending _ present with present | empty
    · exact .inl present
    · exact .inr (.inl empty)
  · exact (mem_drop_concat present).imp_right .inr

/-- The last segment always leaves one behind, if only an empty one. -/
theorem enter_ne_nil (path : List String) (part : List Char) : enter path part true ≠ [] := by
  rw [enter]
  split
  · exact List.append_ne_nil_of_right_ne_nil _ (List.cons_ne_nil _ _)
  split
  · exact List.append_ne_nil_of_right_ne_nil _ (List.cons_ne_nil _ _)
  · exact List.append_ne_nil_of_right_ne_nil _ (List.cons_ne_nil _ _)

private theorem mem_foldl_enter {parts : List (List Char)} {segment : String} :
    ∀ {path : List String}, segment ∈ parts.foldl (fun path part => enter path part false) path →
      segment ∈ path ∨ segment = "" ∨ ∃ part ∈ parts, segment = String.ofList part := by
  induction parts with
  | nil => exact fun present => .inl present
  | cons part parts ih =>
    intro path present
    rcases ih present with present | empty | ⟨other, found, same⟩
    · rcases mem_enter (n := 0) present with present | empty | same
      · exact .inl present
      · exact .inr (.inl empty)
      · exact .inr (.inr ⟨part, List.mem_cons_self, same⟩)
    · exact .inr (.inl empty)
    · exact .inr (.inr ⟨other, List.mem_cons_of_mem part found, same⟩)

private theorem mem_walk {scheme : String} (plain : isFile scheme = false) {parts : List (List Char)} {segment : String}
    (present : segment ∈ walk scheme parts) : segment = "" ∨ ∃ part ∈ parts, segment = String.ofList part := by
  simp only [walk, plain, Bool.false_eq_true, ite_false] at present
  rcases mem_enter (n := 0) present with present | empty | same
  · rcases mem_foldl_enter present with present | empty | ⟨part, found, same⟩
    · cases present
    · exact .inl empty
    · exact .inr ⟨part, List.dropLast_subset parts found, same⟩
  · exact .inl empty
  · cases final : parts.getLast? with
    | none => exact .inl (by rw [same, List.getLastD_eq_getLast?, final]; rfl)
    | some part =>
      rw [List.getLastD_eq_getLast?, final, Option.getD_some] at same
      exact .inr ⟨part, List.mem_of_getLast? final, same⟩

private theorem walk_ne_nil {scheme : String} (plain : isFile scheme = false) (parts : List (List Char)) :
    walk scheme parts ≠ [] := by
  simp only [walk, plain, Bool.false_eq_true, ite_false]
  exact enter_ne_nil _ _

private theorem tidy_root : Tidy [""] := by
  refine ⟨List.cons_ne_nil _ _, fun segment present c inside => ?_⟩
  rw [List.mem_singleton.mp present] at inside
  cases inside

private theorem tidy_segmentsOf {scheme : String} (plain : isFile scheme = false) (text : List Char) :
    Tidy (segmentsOf scheme text) := by
  refine ⟨walk_ne_nil plain _, fun segment present c inside => ?_⟩
  rcases mem_walk plain present with empty | ⟨written, found, same⟩
  · rw [empty] at inside
    cases inside
  · obtain ⟨part, cut, rfl⟩ := List.mem_map.mp found
    rw [same, String.toList_ofList] at inside
    refine inSegment_encode (fun slash => ?_) c inside
    have mark := (Text.mem_part cut slash).2
    simp [isSlash] at mark

private theorem withAuthority_cases {scheme : String} {text : List Char} {url : Url}
    (read : withAuthority scheme text = .ok url) : ∃ authority left,
      let rest := left ++ text.dropWhile (!isEnd (isSpecial scheme) ·)
      url = finish scheme (.authority authority)
        (.segments (match rest.takeWhile (!isMark ·) with
          | [] => if isSpecial scheme then [""] else []
          | c :: pathText => segmentsOf scheme (if isSlash (isSpecial scheme) c then pathText else c :: pathText)))
        (rest.dropWhile (!isMark ·)) := by
  unfold withAuthority at read
  dsimp only [] at read
  cases front : authority scheme (text.dropWhile (!isEnd (isSpecial scheme) ·) ≠ [])
      (text.takeWhile (!isEnd (isSpecial scheme) ·)) with
  | error fault =>
    rw [front] at read
    cases read
  | ok result =>
    rw [front] at read
    cases read
    exact ⟨result.1, result.2, rfl⟩

private theorem withAuthority_path {scheme : String} {text : List Char} {url : Url}
    (special : isSpecial scheme = true) (plain : isFile scheme = false)
    (read : withAuthority scheme text = .ok url) : ∃ path, url.path = .segments path ∧ Tidy path := by
  obtain ⟨authority, left, rfl⟩ := withAuthority_cases read
  refine ⟨_, rfl, ?_⟩
  split
  · rw [special]
    exact tidy_root
  · exact tidy_segmentsOf plain _

private theorem withoutAuthority_scheme (scheme : String) (text : List Char) :
    (withoutAuthority scheme text).scheme = scheme := by
  rw [withoutAuthority]
  split <;> rfl

private theorem ofFile_scheme {text : List Char} {url : Url} (read : ofFile text = .ok url) : url.scheme = "file" := by
  unfold ofFile at read
  dsimp only [] at read
  split at read
  · split at read
    · split at read
      · cases read
        rfl
      · split at read
        · cases read
          rfl
        next named =>
          cases host : Host.parse (List.takeWhile (!isEnd true ·) _) with
          | error fault =>
            rw [host] at read
            cases read
          | ok host =>
            rw [host] at read
            cases read
            rfl
    · cases read
      rfl
  · cases read
    rfl

theorem withAuthority_of_parse {text : String} {url : Url} (read : parse text = .ok url) (web : url.IsWeb) :
    ∃ scheme rest, isSpecial scheme = true ∧ isFile scheme = false ∧ withAuthority scheme rest = .ok url := by
  rw [parse] at read
  split at read
  · cases read
  next scheme rest found =>
    split at read
    next file =>
      rw [IsWeb, ofFile_scheme read] at web
      exact absurd web (by decide)
    next plain =>
      split at read
      next special => exact ⟨scheme, _, special, eq_false_of_ne_true plain, read⟩
      next other =>
        have same : url.scheme = scheme := by
          split at read
          · obtain ⟨authority, left, rfl⟩ := withAuthority_cases read
            rfl
          · cases read
            exact withoutAuthority_scheme _ _
        exact absurd (same ▸ web.special) other

theorem path_of_parse {text : String} {url : Url} (read : parse text = .ok url) (web : url.IsWeb) :
    ∃ path, url.path = .segments path ∧ Tidy path := by
  obtain ⟨scheme, rest, special, plain, read⟩ := withAuthority_of_parse read web
  exact withAuthority_path special plain read

end LedgerClient.Url

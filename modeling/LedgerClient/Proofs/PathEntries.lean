import LedgerClient.Client.Basic
import LedgerClient.Proofs.UrlPath

/-! Entries behind the path of a base address. An entry without breaks becomes one
segment that reads back as the entry; with breaks it may become anything, because
what is left of it once they are dropped is not looked at again. -/

namespace LedgerClient.Url
open Percent (read? read?_encode)

/-- Nothing in the text is dropped on the way into a URL. -/
def Unbroken (text : List Char) : Prop := ∀ c ∈ text, isDropped c = false

instance (text : List Char) : Decidable (Unbroken text) :=
  decidable_of_iff (text.all (!isDropped ·) = true) (by simp only [Unbroken, List.all_eq_true, Bool.not_eq_true'])

theorem dropBreaks_of_unbroken {text : List Char} (whole : Unbroken text) : dropBreaks text = text := by
  refine List.filter_eq_self.mpr fun c inside => ?_
  rw [whole c inside]
  rfl

theorem unbroken_dropBreaks (text : List Char) : Unbroken (dropBreaks text) := by
  intro c inside
  have kept := (List.mem_filter.mp inside).2
  exact Bool.not_eq_true' _ ▸ kept

def segmentOf (scheme entry : String) : String :=
  String.ofList (Percent.encode (keptInSegment (isSpecial scheme)) (dropBreaks entry.toList))

theorem read?_segmentOf (scheme entry : String) :
    read? (segmentOf scheme entry).toList = some (dropBreaks entry.toList) := by
  rw [segmentOf, String.toList_ofList, read?_encode (plain_keptInSegment _)]

private theorem read?_of_unbroken (scheme : String) {entry : String} (whole : Unbroken entry.toList) :
    read? (segmentOf scheme entry).toList = some entry.toList := by
  rw [read?_segmentOf, dropBreaks_of_unbroken whole]

theorem reads_entries (scheme : String) {entries : List String} (whole : ∀ entry ∈ entries, Unbroken entry.toList) :
    (entries.map (segmentOf scheme)).map (fun segment => read? segment.toList) =
      entries.map fun entry => some entry.toList := by
  rw [List.map_map]
  refine List.map_congr_left fun entry present => ?_
  rw [Function.comp_apply, read?_of_unbroken scheme (whole entry present)]

private theorem eq_of_read? {scheme entry : String} (whole : Unbroken entry.toList) {text : List Char}
    (read : read? (segmentOf scheme entry).toList = some text) : entry = String.ofList text := by
  rw [read?_of_unbroken scheme whole] at read
  rw [← Option.some.inj read, String.ofList_toList]

private theorem read?_dots {segment : List Char} :
    (isDot segment = true → read? segment = some ['.']) ∧
      (isDoubleDot segment = true → read? segment = some ['.', '.']) := by
  have spelling : ∀ text : String, String.ofList segment = text → segment = text.toList := by
    intro text same
    rw [← same, String.toList_ofList]
  constructor
  · intro dot
    simp only [isDot, List.contains_eq_mem, List.mem_cons, List.not_mem_nil, or_false, decide_eq_true_eq] at dot
    rcases dot with same | same | same <;> rw [spelling _ same] <;> decide
  · intro dots
    simp only [isDoubleDot, List.contains_eq_mem, List.mem_cons, List.not_mem_nil, or_false, decide_eq_true_eq] at dots
    rcases dots with same | same | same | same | same | same | same | same | same <;> rw [spelling _ same] <;> decide

/-- A path that is only a slash gives way to what is appended. -/
def trunk (path : List String) : List String := if path = [""] then [] else path

theorem mem_drop_trunk {path : List String} {segment : String} {n : Nat}
    (present : segment ∈ (trunk path).drop n) : segment ∈ path.drop n := by
  rw [trunk] at present
  split at present
  · rw [List.drop_nil] at present
    cases present
  · exact present

theorem eq_empty_of_mem_drop_trunk {path : List String} {segment : String}
    (present : segment ∈ path.drop (trunk path).length) : segment = "" := by
  rw [trunk] at present
  split at present
  next root =>
    rw [root] at present
    exact List.mem_singleton.mp present
  next longer =>
    rw [List.drop_length] at present
    cases present

/-- Only dots are written as dots, since a percent sign never stands for itself. -/
theorem segmentOf_dots (scheme : String) {entry : String} (whole : Unbroken entry.toList)
    (sound : Client.isBadSegment entry = false) :
    isDoubleDot (segmentOf scheme entry).toList = false ∧ isDot (segmentOf scheme entry).toList = false := by
  simp only [Client.isBadSegment, Bool.or_eq_false_iff, decide_eq_false_iff_not] at sound
  constructor
  · exact eq_false_of_ne_true fun dots => sound.2 (eq_of_read? whole (read?_dots.2 dots))
  · exact eq_false_of_ne_true fun dot => sound.1.2 (eq_of_read? whole (read?_dots.1 dot))

private theorem segmentOf_ne_empty (scheme : String) {entry : String} (whole : Unbroken entry.toList)
    (sound : Client.isBadSegment entry = false) : segmentOf scheme entry ≠ "" := by
  intro empty
  simp only [Client.isBadSegment, Bool.or_eq_false_iff, decide_eq_false_iff_not] at sound
  have read : read? (segmentOf scheme entry).toList = some [] := by
    rw [empty]
    rfl
  exact sound.1.1 (eq_of_read? whole read)

/-- An entry that is what it seems to be becomes a segment at the end. -/
theorem append_eq {scheme entry : String} (plain : isFile scheme = false) (whole : Unbroken entry.toList)
    (sound : Client.isBadSegment entry = false) (path : List String) :
    append scheme path entry = trunk path ++ [segmentOf scheme entry] := by
  obtain ⟨noDots, noDot⟩ := segmentOf_dots scheme whole sound
  rw [segmentOf, String.toList_ofList] at noDots noDot
  simp only [append, plain, Bool.false_eq_true, ite_false, enter, noDots, noDot]
  rfl

private theorem trunk_concat {path : List String} {segment : String} (filled : segment ≠ "") :
    trunk (path ++ [segment]) = path ++ [segment] := by
  refine if_neg fun root => ?_
  have last := congrArg List.getLast? root
  rw [List.getLast?_concat, List.getLast?_singleton] at last
  exact filled (Option.some.inj last)

theorem foldl_append {scheme : String} (plain : isFile scheme = false) {entries : List String}
    (whole : ∀ entry ∈ entries, Unbroken entry.toList)
    (sound : ∀ entry ∈ entries, Client.isBadSegment entry = false) :
    ∀ path : List String, trunk (entries.foldl (append scheme) path) = trunk path ++ entries.map (segmentOf scheme) := by
  induction entries with
  | nil => exact fun path => (List.append_nil _).symm
  | cons entry entries ih =>
    intro path
    have first := append_eq plain (whole entry List.mem_cons_self) (sound entry List.mem_cons_self) path
    have filled := segmentOf_ne_empty scheme (whole entry List.mem_cons_self)
      (sound entry List.mem_cons_self)
    rw [List.foldl_cons, first, ih (fun other present => whole other (List.mem_cons_of_mem entry present))
      (fun other present => sound other (List.mem_cons_of_mem entry present)), trunk_concat filled,
      List.append_assoc, List.map_cons, List.singleton_append]

/-- Whatever the entries are, they put only their own segments or empty ones behind any
place of the path. -/
theorem mem_foldl_append {scheme : String} (plain : isFile scheme = false) {entries : List String}
    {segment : String} {n : Nat} : ∀ {path : List String},
    segment ∈ (entries.foldl (append scheme) path).drop n →
      segment ∈ path.drop n ∨ segment = "" ∨ ∃ entry ∈ entries, segment = segmentOf scheme entry := by
  induction entries with
  | nil => exact fun present => .inl present
  | cons entry entries ih =>
    intro path present
    rcases ih present with present | empty | ⟨other, found, same⟩
    · simp only [append, plain, Bool.false_eq_true, ite_false] at present
      rcases mem_enter present with present | empty | same
      · split at present
        · rw [List.drop_nil] at present
          cases present
        · exact .inl present
      · exact .inr (.inl empty)
      · exact .inr (.inr ⟨entry, List.mem_cons_self, same⟩)
    · exact .inr (.inl empty)
    · exact .inr (.inr ⟨other, List.mem_cons_of_mem entry found, same⟩)

private theorem keptInPath_of_keptInSegment {octet : UInt8} :
    keptInSegment true octet = true → keptInPath octet = true ∧ Char.ofNat octet.toNat ≠ '/' :=
  Percent.forall_octet (p := fun octet => keptInSegment true octet = true →
    keptInPath octet = true ∧ Char.ofNat octet.toNat ≠ '/') (by decide +kernel) octet

private theorem inSegment_segmentOf {scheme : String} (special : isSpecial scheme = true) (entry : String) :
    ∀ c ∈ (segmentOf scheme entry).toList, InSegment c := by
  rw [segmentOf, String.toList_ofList, special]
  apply Percent.forall_mem_encode (p := InSegment) (fun octet kept => visibleBut_ascii kept)
  · exact ⟨by decide, by decide, by decide⟩
  · exact inSegment_hexDigit
  · intro octet kept _
    have value := Percent.toNat_char_of_ascii (visibleBut_ascii kept)
    obtain ⟨inPath, noSlash⟩ := keptInPath_of_keptInSegment kept
    refine ⟨?_, ?_, noSlash⟩
    · rw [value]
      exact visibleBut_ascii kept
    · rw [value, UInt8.ofNat_toNat]
      exact inPath

theorem tidy_withoutSlash {path : List String} (tidy : Tidy path) : Tidy (withoutSlash path) := by
  rw [withoutSlash]
  split
  next slash =>
    refine ⟨fun none => ?_, fun segment present => tidy.inside segment (List.dropLast_subset path present)⟩
    have short := congrArg List.length none
    have filled := List.length_pos_iff.mpr tidy.nonempty
    rw [List.length_dropLast, List.length_nil] at short
    exact slash.1 (by omega)
  · exact tidy

theorem foldl_append_ne_nil {scheme : String} (plain : isFile scheme = false) {entries : List String} :
    ∀ {path : List String}, path ≠ [] → entries.foldl (append scheme) path ≠ [] := by
  induction entries with
  | nil => exact id
  | cons entry entries ih =>
    intro path _
    apply ih
    simp only [append, plain, Bool.false_eq_true, ite_false]
    exact enter_ne_nil _ _

theorem tidy_foldl_append {scheme : String} (special : isSpecial scheme = true) (plain : isFile scheme = false)
    {path : List String} (tidy : Tidy path) (entries : List String) : Tidy (entries.foldl (append scheme) path) := by
  refine ⟨foldl_append_ne_nil plain tidy.nonempty, fun segment present c inside => ?_⟩
  rcases mem_foldl_append (n := 0) plain present with present | empty | ⟨entry, _, same⟩
  · exact tidy.inside segment present c inside
  · rw [empty] at inside
    cases inside
  · exact inSegment_segmentOf special entry c (same ▸ inside)

/-- The segments of a path as its text tells them apart. A lone slash has none. -/
def parts (url : Url) : List (List Char) :=
  match (Text.splitOn '/' url.path.text).drop 1 with
  | [[]] => []
  | parts => parts

/-- The segments without an empty one at the end. -/
def stem (url : Url) : List (List Char) :=
  if url.parts.getLast? = some [] then url.parts.dropLast else url.parts

theorem text_append (path added : List String) :
    (UrlPath.segments (path ++ added)).text = (UrlPath.segments path).text ++ (UrlPath.segments added).text :=
  List.flatMap_append

theorem splitOn_text {path : List String} (tidy : Tidy path) :
    Text.splitOn '/' (UrlPath.segments path).text = [] :: path.map String.toList := by
  have free : ∀ part ∈ path.map String.toList, '/' ∉ part := by
    intro part present slash
    obtain ⟨segment, inside, rfl⟩ := List.mem_map.mp present
    exact (tidy.inside segment inside '/' slash).2.2 rfl
  rw [UrlPath.text, ← List.flatMap_map, Text.splitOn_flatMap '/' free]

theorem parts_eq {url : Url} {path : List String} (segments : url.path = .segments path) (tidy : Tidy path) :
    url.parts = (trunk path).map String.toList := by
  rw [parts, segments, splitOn_text tidy, List.drop_one, List.tail_cons, trunk]
  by_cases root : path = [""]
  · subst root
    rfl
  · rw [if_neg root]
    split
    next alone =>
      exfalso
      apply root
      cases path with
      | nil => cases alone
      | cons segment rest =>
        obtain ⟨empty, none⟩ := List.cons.inj alone
        rw [String.toList_eq_nil_iff.mp empty, List.map_eq_nil_iff.mp none]
    · rfl

/-- Without empty segments inside, the stem of a path is what entries are appended to. -/
theorem stem_eq {url : Url} {path : List String} (segments : url.path = .segments path) (tidy : Tidy path)
    (filled : [] ∉ url.parts.dropLast) : url.stem = (trunk (withoutSlash path)).map String.toList := by
  rw [stem, parts_eq segments tidy] at *
  by_cases root : path = [""]
  · subst root
    rfl
  · rw [trunk, if_neg root] at filled ⊢
    have ends : (path.map String.toList).getLast? = some [] ↔ path.getLast? = some "" := by
      rw [List.getLast?_map, Option.map_eq_some_iff]
      constructor
      · rintro ⟨segment, last, empty⟩
        rw [last, String.toList_eq_nil_iff.mp empty]
      · exact fun last => ⟨"", last, rfl⟩
    by_cases slash : path.getLast? = some ""
    · have long : path.length ≠ 1 := by
        intro single
        obtain ⟨segment, rfl⟩ := List.length_eq_one_iff.mp single
        exact root (congrArg (fun last => [last]) (Option.some.inj slash))
      have rest : trunk path.dropLast = path.dropLast := by
        refine if_neg fun alone => filled ?_
        rw [← List.map_dropLast, alone]
        exact List.mem_cons_self
      rw [if_pos (ends.mpr slash), withoutSlash, if_pos ⟨long, slash⟩, rest, List.map_dropLast]
    · rw [if_neg fun empty => slash (ends.mp empty), withoutSlash, if_neg fun both => slash both.2, trunk,
        if_neg root]

end LedgerClient.Url

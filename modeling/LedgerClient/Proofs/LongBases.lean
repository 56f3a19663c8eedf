import LedgerClient.Client.Service
import LedgerClient.Proofs.PlainCalls

/-! Base addresses with a path of one plain entry, of any length. Nothing about them has to
be escaped or left out, so whether a call goes is a matter of counting. -/

namespace LedgerClient.Url

/-- A local service under a path of one entry. -/
def underEntry (entry : String) : Url :=
  ⟨"http", .authority ⟨"", none, .name "localhost", some 4001⟩, .segments [entry], none, none⟩

private theorem origin_underEntry (entry : String) : (underEntry entry).origin = "http://localhost:4001".toList := by
  simp only [underEntry, origin, frontText]
  decide +kernel

private theorem IsPlain.shown {entry : String} (plain : IsPlain entry) : ∀ c ∈ entry.toList,
    ¬c.toNat ≤ 0x20 ∧ isMark c = false ∧ isSlash true c = false ∧ keptInPath (UInt8.ofNat c.toNat) = true := by
  have checked : ∀ c : Char, c.toNat < 0x80 → (c.isAlphanum || c = '-') = true →
      ¬c.toNat ≤ 0x20 ∧ isMark c = false ∧ isSlash true c = false ∧ keptInPath (UInt8.ofNat c.toNat) = true :=
    Percent.forall_ascii (by decide +kernel)
  intro c inside
  obtain ⟨small, mark⟩ := plain.2 c inside
  exact checked c small mark

private theorem segmentsOf_plain {entry : String} (plain : IsPlain entry) :
    segmentsOf "http" entry.toList = [entry] := by
  have special : isSpecial "http" = true := rfl
  have single : Text.splitBy (isSlash true) entry.toList = [entry.toList] :=
    Text.splitBy_free fun c inside => (plain.shown c inside).2.2.1
  have spelt : Percent.encode keptInPath entry.toList = entry.toList :=
    Percent.encode_of_kept (fun c inside => (plain.2 c inside).1) fun c inside => (plain.shown c inside).2.2.2
  obtain ⟨noDots, noDot⟩ := segmentOf_dots "http" plain.unbroken plain.sound
  rw [plain.segmentOf_eq] at noDots noDot
  rw [segmentsOf, special, single, List.map_singleton, spelt]
  change enter [] entry.toList true = [entry]
  rw [enter, noDots, noDot, if_neg Bool.false_ne_true, if_neg Bool.false_ne_true, String.ofList_toList,
    List.nil_append]

private theorem trimEnds_eq {text : List Char} (shown : ∀ c ∈ text, ¬c.toNat ≤ 0x20) : trimEnds text = text := by
  have kept : ∀ text : List Char, (∀ c ∈ text, ¬c.toNat ≤ 0x20) → text.dropWhile (·.toNat ≤ 0x20) = text := by
    intro text shown
    cases text with
    | nil => rfl
    | cons c text => exact List.dropWhile_cons_of_neg (by simp [shown c List.mem_cons_self])
  rw [trimEnds, kept text shown, kept _ fun c inside => shown c (List.mem_reverse.mp inside), List.reverse_reverse]

private theorem withAuthority_local {text : List Char} (free : ∀ c ∈ text, isMark c = false) :
    withAuthority "http" ("localhost:4001".toList ++ '/' :: text) = .ok (finish "http"
      (.authority ⟨"", none, .name "localhost", some 4001⟩) (.segments (segmentsOf "http" text)) []) := by
  have unmarked : ∀ c ∈ '/' :: text, (!isMark c) = true := by
    simp only [List.forall_mem_cons]
    exact ⟨rfl, fun c inside => by rw [free c inside]; rfl⟩
  have path : ('/' :: text).takeWhile (!isMark ·) = '/' :: text := by
    rw [← List.append_nil ('/' :: text), List.takeWhile_append_of_pos unmarked, List.takeWhile_nil]
  have behind : ('/' :: text).dropWhile (!isMark ·) = [] := by
    rw [← List.append_nil ('/' :: text), List.dropWhile_append_of_pos unmarked, List.dropWhile_nil]
  have front : ("localhost:4001".toList ++ '/' :: text).takeWhile (!isEnd true ·) = "localhost:4001".toList := rfl
  have rest : ("localhost:4001".toList ++ '/' :: text).dropWhile (!isEnd true ·) = '/' :: text := rfl
  have host : authority "http" true "localhost:4001".toList = .ok (⟨"", none, .name "localhost", some 4001⟩, []) := rfl
  have special : isSpecial "http" = true := rfl
  have followed : decide ('/' :: text ≠ []) = true := rfl
  simp only [withAuthority, special, front, rest, followed, host, bind, Except.bind, List.nil_append, path, behind]
  rfl

theorem parse_underEntry {entry : String} (plain : IsPlain entry) :
    parse ("http://localhost:4001/" ++ entry) = .ok (underEntry entry) := by
  have text : ("http://localhost:4001/" ++ entry).toList =
      "http:".toList ++ ("//".toList ++ ("localhost:4001".toList ++ '/' :: entry.toList)) := by
    rw [String.toList_append]
    rfl
  have shown : ∀ c ∈ ("http://localhost:4001/" ++ entry).toList, ¬c.toNat ≤ 0x20 ∧ isDropped c = false := by
    intro c inside
    rw [String.toList_append] at inside
    rcases List.mem_append.mp inside with front | rear
    · have checked : "http://localhost:4001/".toList.all fun c => 0x20 < c.toNat && !isDropped c := rfl
      have shown := List.all_eq_true.mp checked c front
      simpa using shown
    · exact ⟨(plain.shown c rear).1, plain.unbroken c rear⟩
  rw [parse, trimEnds_eq fun c inside => (shown c inside).1,
    dropBreaks_of_unbroken fun c inside => (shown c inside).2, text]
  have scheme : ∀ rest, scheme? ("http:".toList ++ rest) = some ("http", rest) := fun rest => rfl
  rw [scheme]
  change withAuthority "http" ("localhost:4001".toList ++ '/' :: entry.toList) = _
  rw [withAuthority_local fun c inside => (plain.shown c inside).2.1, segmentsOf_plain plain]
  rfl

end LedgerClient.Url

namespace LedgerClient.Call
open Client

private theorem ascii_line {call : Call filters α} (plain : call.IsPlain) (fresh : call.settings = .empty) :
    ∀ c ∈ call.line, c.toNat < 0x80 := by
  intro c inside
  rw [line, fresh] at inside
  rcases List.mem_append.mp inside with inside | none
  · obtain ⟨entry, present, inside⟩ := List.mem_flatMap.mp inside
    rcases List.mem_cons.mp inside with rfl | inside
    · decide
    · exact ((plain.entries entry present).2 c inside).1
  · cases none

/-- A call goes if all that is written of its address finds room. -/
theorem goes_underEntry_iff {client : Client} {entry : String} (base : client.base = Url.underEntry entry)
    (plain : Url.IsPlain entry) {call : Call filters α} (plainCall : call.IsPlain) (fresh : call.settings = .empty) :
    call.Goes client ↔ 22 + entry.toList.length + call.line.length ≤ addressLimit := by
  have web : client.base.IsWeb := base ▸ .inl rfl
  have segments : client.base.path = .segments [entry] := base ▸ rfl
  have root : client.base.root = '/' :: entry.toList := by
    have single : Url.withoutSlash [entry] = [entry] := if_neg fun both => both.1 rfl
    have filled : Url.trunk [entry] = [entry] := if_neg fun empty => plain.1 (List.cons.inj empty).1
    rw [Url.root, segments]
    dsimp only
    rw [single, filled]
    exact List.append_nil _
  have origin : client.base.origin = "http://localhost:4001".toList := base ▸ Url.origin_underEntry entry
  have ascii : ∀ c ∈ "http://localhost:4001".toList ++ ('/' :: entry.toList ++ call.line), c.toNat < 0x80 := by
    have checked : "http://localhost:4001".toList.all (·.toNat < 0x80) := rfl
    intro c inside
    rcases List.mem_append.mp inside with inside | inside
    · exact of_decide_eq_true (List.all_eq_true.mp checked c inside)
    rcases List.mem_cons.mp inside with rfl | inside
    · decide
    rcases List.mem_append.mp inside with inside | inside
    · exact (plain.2 c inside).1
    · exact ascii_line plainCall fresh c inside
  have front : "http://localhost:4001".toList.length = 21 := rfl
  rw [goes_iff plainCall web segments (base ▸ rfl) (base ▸ rfl), root, origin, Utf8.encode_ascii ascii, List.length_map,
    List.length_append, List.length_append, List.length_cons, front]
  exact iff_of_eq (congrArg (· ≤ addressLimit) (by omega))

end LedgerClient.Call

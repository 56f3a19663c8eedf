import LedgerClient.Proofs.StringReading

/-! Objects with the keys that their members spell, and what the reader of members makes of
them: it goes from member to member and hands on a state. What holds of the state in front
of all members is carried forward by the steps, and what holds behind them carried back. -/

namespace LedgerClient.Json

namespace Grammar
open Reader

/-- A member spells the key and holds the text of a value. -/
structure Member.Denotes (member : Member) (key : String) : Prop where
  before : Blank member.before
  key : Spells member.key key.toList
  between : Blank member.between
  value : Text member.value

/-- What stands between the braces of an object with the given keys and texts of values. -/
inductive Inside : List (String × List UInt8) → List UInt8 → Prop
  | blank {octets : List UInt8} (blank : Blank octets) : Inside [] octets
  | members {parts : List (Member × String)} (some : parts ≠ []) (denoted : ∀ part ∈ parts, part.1.Denotes part.2) :
      Inside (parts.map fun part => (part.2, part.1.value)) (commas (parts.map fun part => part.1.text))

/-- The texts of an object with the given keys and texts of values. -/
inductive Object (members : List (String × List UInt8)) : List UInt8 → Prop
  | braces {before inside after : List UInt8} (front : Blank before) (sound : Inside members inside)
      (back : Blank after) : Object members (before ++ 123 :: (inside ++ 125 :: after))

private theorem Member.Denotes.sound {member : Member} {key : String} (denotes : member.Denotes key) : member.Sound :=
  ⟨denotes.before, denotes.key.body, denotes.between⟩

private theorem Inside.text {members : List (String × List UInt8)} {inside : List UInt8}
    (sound : Inside members inside) :
    Text (123 :: (inside ++ [125])) := by
  cases sound with
  | blank blank => exact .emptyObject blank
  | members some denoted =>
    rw [← Function.comp_def, ← List.map_map]
    refine .object (mt List.map_eq_nil_iff.mp some) (List.forall_mem_map.mpr fun part among => ?_)
      (List.forall_mem_map.mpr fun part among => ?_)
    · exact (denoted part among).sound
    · exact (denoted part among).value

theorem Object.text {members : List (String × List UInt8)} {octets : List UInt8} (object : Object members octets) :
    Text octets := by
  cases object with
  | braces front sound back =>
    have text := Text.padded front sound.text back
    rwa [List.cons_append, List.append_assoc] at text

end Grammar

namespace Reader
open Grammar

/-- The reader takes the text for the value wherever it stands, and leaves nothing of it but blanks. -/
def Reads (reader : Reader α) (text : List UInt8) (value : α) : Prop :=
  ∀ rest, Ends rest → ∃ blank, Blank blank ∧ reader (text ++ rest) = .done value (blank ++ rest)

theorem Reads.map {reader : Reader α} {text : List UInt8} {value : α} (reads : Reads reader text value) (f : α → β) :
    Reads (reader >>= fun value => pure (f value)) text (f value) := by
  intro rest ends
  obtain ⟨blank, all, read⟩ := reads rest ends
  exact ⟨blank, all, bind_of_done read _⟩

theorem reads_skip {text : List UInt8} (sound : Text text) : Reads skip text () := by
  intro rest ends
  obtain ⟨blank, all, skipped⟩ := passed_text sound rest ends
  exact ⟨blank, all, skip_blank skipped⟩

/-- What a step makes of a member, wherever it stands. -/
theorem Reads.colon {reader : Reader α} {text between : List UInt8} {value : α} (reads : Reads reader text value)
    (blank : Blank between) : Reads (Reader.colon >>= fun _ => reader) (between ++ 58 :: text) value := by
  intro rest ends
  obtain ⟨behind, all, read⟩ := reads rest ends
  refine ⟨behind, all, ?_⟩
  rw [List.append_assoc, List.cons_append, bind_of_done (colon_eq_done.mpr (Next.behind blank rfl _)), read]

private theorem blank_of_dropWhile {input : List UInt8} (none : input.dropWhile isSpace = []) : Blank input := by
  rw [← List.takeWhile_append_dropWhile (p := isSpace) (l := input), none, List.append_nil]
  exact List.all_eq_true.mp List.all_takeWhile

/-- A whole text is read if nothing but blanks is left of it. -/
theorem run_eq_ok_iff {reader : Reader α} {text : List UInt8} {value : α} :
    reader.run text = .ok value ↔ ∃ blank, Blank blank ∧ reader text = .done value blank := by
  constructor
  · intro read
    unfold run at read
    dsimp only at read
    split at read
    next whole =>
      cases read
      obtain ⟨value, left, first, done⟩ := bind_eq_done.mp whole
      rw [ahead_bind, peek_bind] at done
      cases seen : left.dropWhile isSpace with
      | cons octet behind =>
        rw [seen] at done
        cases done
      | nil =>
        rw [seen] at done
        cases done
        exact ⟨left, blank_of_dropWhile seen, first⟩
    next => cases read
  · rintro ⟨blank, all, read⟩
    have none : blank.dropWhile isSpace = [] := by simpa using dropWhile_blank all []
    unfold run
    dsimp only
    rw [bind_of_done read, ahead_bind, none]
    rfl

theorem run_of_reads {reader : Reader α} {text : List UInt8} {value : α} (reads : Reads reader text value) :
    reader.run text = .ok value := by
  obtain ⟨blank, all, read⟩ := reads [] nofun
  rw [List.append_nil, List.append_nil] at read
  exact run_eq_ok_iff.mpr ⟨blank, all, read⟩

theorem reads_of_run {reader : Reader α} (reads : Extends reader reader) {text : List UInt8} {value : α}
    (read : reader.run text = .ok value) : Reads reader text value := by
  intro rest ends
  obtain ⟨blank, all, first⟩ := run_eq_ok_iff.mp read
  exact ⟨blank, all, (reads first).2 rest ends⟩

private theorem MoreMembers.shorter {first : Bool} {input left : List UInt8}
    (more : MoreMembers first input true left) :
    left.length < input.length := by
  cases more with
  | starts seen => exact seen.shorter
  | continues comma seen => exact Nat.lt_trans seen.shorter comma.shorter

/-- The input goes on with the members and the brace behind them. -/
inductive Onward (rest : List UInt8) : Bool → List (Member × String) → List UInt8 → Prop
  | ends {first : Bool} {input : List UInt8} (seen : Next 125 input rest) : Onward rest first [] input
  | member {first : Bool} {input tail : List UInt8} {member : Member} {key : String} {parts : List (Member × String)}
      (more : MoreMembers first input true (member.key ++ 34 :: (member.between ++ 58 :: (member.value ++ tail))))
      (denotes : member.Denotes key) (ends : Ends tail)
      (onward : ∀ blank, Blank blank → Onward rest false parts (blank ++ tail)) :
      Onward rest first ((member, key) :: parts) input

private theorem Onward.length_lt {rest input : List UInt8} {first : Bool} {parts : List (Member × String)}
    (onward : Onward rest first parts input) : parts.length < input.length := by
  induction onward with
  | ends seen => exact Nat.zero_lt_of_lt seen.shorter
  | member more denotes ends _ ih =>
    have behind := ih [] nofun
    have shorter := more.shorter
    simp only [List.length_append, List.length_cons, List.nil_append] at behind shorter ⊢
    omega

/-- Behind a member come the others, each behind a comma. -/
theorem onward_behind {parts : List (Member × String)} (denoted : ∀ part ∈ parts, part.1.Denotes part.2)
    (rest : List UInt8) : ∃ tail, Ends tail ∧ (∀ blank, Blank blank → Onward rest false parts (blank ++ tail)) ∧
      ∀ text, commas (text :: parts.map fun part => part.1.text) ++ 125 :: rest = text ++ tail := by
  induction parts with
  | nil => exact ⟨_, ends_of_mark (by simp) _, fun blank all => .ends (Next.behind all rfl rest), fun _ => rfl⟩
  | cons part parts ih =>
    obtain ⟨denotes, denoted⟩ := List.forall_mem_cons.mp denoted
    obtain ⟨tail, ends, onward, same⟩ := ih denoted
    refine ⟨44 :: (part.1.text ++ tail), ends_of_mark (by simp) _, fun blank all => ?_, fun text => ?_⟩
    · exact .member (.continues (Next.behind all rfl _) (denotes.sound.quote tail)) denotes ends onward
    · rw [← same, List.map_cons, commas, List.append_assoc, List.cons_append]
      exact List.cons_ne_nil _ _

private theorem onward_of_inside {members : List (String × List UInt8)} {inside : List UInt8}
    (sound : Inside members inside)
    (rest : List UInt8) : ∃ parts : List (Member × String),
      members = (parts.map fun part => (part.2, part.1.value)) ∧ Onward rest true parts (inside ++ 125 :: rest) := by
  cases sound with
  | blank blank => exact ⟨[], rfl, .ends (Next.behind blank rfl rest)⟩
  | @members parts some denoted =>
    refine ⟨parts, rfl, ?_⟩
    cases parts with
    | nil => exact absurd rfl some
    | cons part parts =>
      obtain ⟨denotes, denoted⟩ := List.forall_mem_cons.mp denoted
      obtain ⟨tail, ends, onward, same⟩ := onward_behind denoted rest
      rw [List.map_cons, same]
      exact .member (.starts (denotes.sound.quote tail)) denotes ends onward

section
variable {step : String → σ → Reader σ} (Holds : List (String × List UInt8) → σ → Prop)

/-- One round of the loop over members. -/
theorem members_member {first : Bool} {input tail left : List UInt8} {member : Member} {key : String}
    {state final : σ} {bound : Nat}
    (more : MoreMembers first input true (member.key ++ 34 :: (member.between ++ 58 :: (member.value ++ tail))))
    (denotes : member.Denotes key) :
    members string step first state (bound + 1) input = .done final left ↔
      ∃ next behind, step key state (member.between ++ 58 :: (member.value ++ tail)) = .done next behind ∧
        members string step false next bound behind = .done final left := by
  have spelt := string_of_spells denotes.key (member.between ++ 58 :: (member.value ++ tail))
  rw [String.ofList_toList] at spelt
  rw [members, bind_of_done (moreMembers_eq_done.mpr more)]
  change (string >>= _) _ = _ ↔ _
  rw [bind_of_done spelt]
  exact bind_eq_done

/-- What the steps carry forward from member to member holds at the end. -/
theorem members_of_steps
    (steps : ∀ key text members state, Text text → Holds ((key, text) :: members) state →
      ∃ next, Holds members next ∧ ∀ between, Blank between → Reads (step key state) (between ++ 58 :: text) next)
    {rest input : List UInt8} {first : Bool} {parts : List (Member × String)} (onward : Onward rest first parts input)
    {state : σ} (holds : Holds (parts.map fun part => (part.2, part.1.value)) state) {bound : Nat}
    (enough : parts.length < bound) :
    ∃ final, Holds [] final ∧ members string step first state bound input = .done final (125 :: rest) := by
  induction onward generalizing state bound with
  | ends seen =>
    obtain ⟨bound, rfl⟩ := Nat.exists_eq_add_of_le' (Nat.one_le_of_lt enough)
    refine ⟨state, holds, ?_⟩
    rw [members, bind_of_done (moreMembers_eq_done.mpr (.ends seen))]
    rfl
  | @member _ _ tail member _ _ more denotes ends _ ih =>
    obtain ⟨bound, rfl⟩ := Nat.exists_eq_add_of_le' (Nat.one_le_of_lt enough)
    obtain ⟨next, holds, reads⟩ := steps _ _ _ _ denotes.value holds
    obtain ⟨blank, all, read⟩ := reads member.between denotes.between tail ends
    obtain ⟨final, last, others⟩ := ih blank all holds (Nat.lt_of_succ_lt_succ enough)
    rw [List.append_assoc, List.cons_append] at read
    exact ⟨final, last, (members_member more denotes).mpr ⟨next, _, read, others⟩⟩

/-- What holds at the end of every run and is carried back over the steps holds in front of
the members that were read. -/
theorem holds_of_members (passes : ∀ key state, Follows (colon >>= fun _ => skip) (step key state))
    (none : ∀ state, Holds [] state)
    (back : ∀ key text between tail members state next left, Blank between → Text text → Ends tail →
      step key state (between ++ 58 :: (text ++ tail)) = .done next left → Holds members next →
      Holds ((key, text) :: members) state)
    {rest input left : List UInt8} {first : Bool} {parts : List (Member × String)}
    (onward : Onward rest first parts input) {state final : σ} {bound : Nat}
    (read : members string step first state bound input = .done final left) :
    Holds (parts.map fun part => (part.2, part.1.value)) state := by
  induction onward generalizing state bound with
  | ends => exact none state
  | @member _ _ tail member key _ more denotes ends _ ih =>
    cases bound with
    | zero => cases read
    | succ bound =>
      obtain ⟨next, behind, here, others⟩ := (members_member more denotes).mp read
      obtain ⟨_, passed⟩ := passes key state here
      -- The step stops where passing over the value stops, that is, at blanks in front of the others.
      rw [bind_of_done (colon_eq_done.mpr (denotes.sound.colon tail))] at passed
      obtain ⟨blank, all, skipped⟩ := passed_text denotes.value tail ends
      rw [skip_blank skipped] at passed
      cases passed
      exact back _ _ _ _ _ _ _ _ denotes.between denotes.value ends here (ih blank all others)

theorem object_of_steps
    (steps : ∀ key text members state, Text text → Holds ((key, text) :: members) state →
      ∃ next, Holds members next ∧ ∀ between, Blank between → Reads (step key state) (between ++ 58 :: text) next)
    {members : List (String × List UInt8)} {inside : List UInt8} (sound : Inside members inside) {state : σ}
    (holds : Holds members state) (rest : List UInt8) :
    ∃ final, Holds [] final ∧ object step state (123 :: (inside ++ 125 :: rest)) = .done final rest := by
  obtain ⟨parts, rfl, onward⟩ := onward_of_inside sound rest
  obtain ⟨final, last, read⟩ := members_of_steps Holds steps onward holds onward.length_lt
  exact ⟨final, last, enclosed_eq_done.mpr ⟨_, read, closeObject_eq_done.mpr (Next.here rfl rest)⟩⟩

theorem holds_of_object (passes : ∀ key state, Follows (colon >>= fun _ => skip) (step key state))
    (none : ∀ state, Holds [] state)
    (back : ∀ key text between tail members state next left, Blank between → Text text → Ends tail →
      step key state (between ++ 58 :: (text ++ tail)) = .done next left → Holds members next →
      Holds ((key, text) :: members) state)
    {members : List (String × List UInt8)} {inside : List UInt8} (sound : Inside members inside)
    {rest left : List UInt8} {state final : σ}
    (read : object step state (123 :: (inside ++ 125 :: rest)) = .done final left) : Holds members state := by
  obtain ⟨parts, rfl, onward⟩ := onward_of_inside sound rest
  obtain ⟨stop, read, _⟩ := enclosed_eq_done.mp read
  exact holds_of_members Holds passes none back onward read

end

end Reader
end LedgerClient.Json

import LedgerClient.Json.Parser
import LedgerClient.Proofs.Escapes

/-! Readers look no further than the value they read. What a reader takes from a text
it also takes from a longer one, as long as what is added cannot belong to the value.
The law is stated for two readers, so that it also says that a loop which may run
longer reads the same. -/

namespace LedgerClient.Json.Reader
open Percent (forall_octet)

/-- What may stand behind a value: blanks, and then nothing or the mark that ends an
item, a list or an object. -/
def Ends (rest : List UInt8) : Prop :=
  ∀ octet ∈ (rest.dropWhile isSpace).head?, character octet ∈ [',', ']', '\x7d']

/-- What the first reader takes from the front of a text the second takes from a longer
one, and leaves the same in front of what was added. -/
def Extends (reader longer : Reader α) : Prop :=
  ∀ ⦃input value left⦄, reader input = .done value left → left.length ≤ input.length ∧
    ∀ rest, Ends rest → longer (input ++ rest) = .done value (left ++ rest)

/-- The same for texts in which something stands. -/
def ExtendsInside (reader longer : Reader α) : Prop :=
  ∀ ⦃octet input value left⦄, reader (octet :: input) = .done value left → left.length ≤ input.length + 1 ∧
    ∀ rest, Ends rest → longer (octet :: (input ++ rest)) = .done value (left ++ rest)

/-- A reader that reads nothing, whatever the text. -/
def Fails (reader : Reader α) : Prop := ∀ input value left, reader input ≠ .done value left

/-- The reader takes a value from the front of the input. (Said of the reader, and not of
what it yields, so that cases of the reader can be told apart.) -/
def Takes (reader : Reader α) (input : List UInt8) (value : α) (left : List UInt8) : Prop :=
  reader input = .done value left

theorem bind_eq_done {reader : Reader α} {next : α → Reader β} {input left : List UInt8} {value : β} :
    (reader >>= next) input = .done value left ↔
      ∃ first rest, reader input = .done first rest ∧ next first rest = .done value left := by
  simp only [bind]
  constructor
  · intro read
    split at read
    next first rest same => exact ⟨first, rest, same, read⟩
    next => cases read
  · rintro ⟨first, rest, same, read⟩
    rw [same]
    exact read

theorem bind_of_done {reader : Reader α} {input rest : List UInt8} {first : α}
    (read : reader input = .done first rest) (next : α → Reader β) :
    (reader >>= next) input = next first rest := by
  simp only [bind, read]

theorem next_bind (octet : UInt8) (rest : List UInt8) (next : Option Char → Reader α) :
    (Reader.next >>= next) (octet :: rest) = next (some (character octet)) rest := rfl

theorem peek_bind (input : List UInt8) (next : Option Char → Reader α) :
    (peek >>= next) input = next (input.head?.map character) input := rfl

theorem ahead_bind (input : List UInt8) (next : Option Char → Reader α) :
    (ahead >>= next) input = (peek >>= next) (input.dropWhile isSpace) := rfl

theorem skipOne_bind (octet : UInt8) (rest : List UInt8) (next : Unit → Reader α) :
    (skipOne >>= next) (octet :: rest) = next () rest := rfl

theorem toNat_character (octet : UInt8) : (character octet).toNat = octet.toNat :=
  forall_octet (p := fun octet => (character octet).toNat = octet.toNat) (by decide +kernel) octet

theorem eq_of_character {octet k : UInt8} {c : Char} (seen : character octet = c) (written : character k = c) :
    octet = k := by
  have same := congrArg Char.toNat (seen.trans written.symm)
  rwa [toNat_character, toNat_character, UInt8.toNat_inj] at same

theorem fails_failHere (cause : Cause) : Fails (failHere cause : Reader α) := nofun

theorem fails_failAhead (cause : Cause) : Fails (failAhead cause : Reader α) := nofun

theorem fails_misfit (cause : Misfit) : Fails (misfit cause : Reader α) := nofun

theorem Fails.bind {reader : Reader α} (fails : Fails reader) (next : α → Reader β) :
    Fails (reader >>= next) := fun input _ _ read =>
  have ⟨first, rest, read, _⟩ := bind_eq_done.mp read
  fails input first rest read

private theorem Fails.placed {reader : Reader α} (fails : Fails reader) : Fails (placed reader) := by
  intro input value left read
  unfold Reader.placed at read
  split at read
  next same => exact fails _ _ _ same
  next => cases read

theorem Fails.after {reader : Reader α} {next : α → Reader β} (fails : ∀ first, Fails (next first)) :
    Fails (reader >>= next) := fun _ _ _ read =>
  have ⟨first, _, _, read⟩ := bind_eq_done.mp read
  fails first _ _ _ read

theorem fails_mismatch (expected : String) : Fails (mismatch expected : Reader α) := by
  refine Fails.placed (Fails.after fun found => ?_)
  split
  · exact fails_failAhead _
  · exact fails_misfit _
  · exact fails_misfit _
  · exact Fails.after fun _ => fails_misfit _

theorem Fails.extends {reader : Reader α} (fails : Fails reader) (longer : Reader α) :
    Extends reader longer := fun input value left read => absurd read (fails input value left)

theorem Fails.extendsInside {reader : Reader α} (fails : Fails reader) (longer : Reader α) :
    ExtendsInside reader longer := fun _ _ value left read => absurd read (fails _ value left)

theorem Extends.inside {reader longer : Reader α} (extends' : Extends reader longer) :
    ExtendsInside reader longer := fun _ _ _ _ read => extends' read

theorem Extends.pure (value : α) : Extends (pure value) (pure value) := by
  intro _ _ _ read
  cases read
  exact ⟨Nat.le_refl _, fun _ _ => rfl⟩

theorem Extends.bind {reader longer : Reader α} {next longerNext : α → Reader β}
    (first : Extends reader longer) (second : ∀ value, Extends (next value) (longerNext value)) :
    Extends (reader >>= next) (longer >>= longerNext) := by
  intro input value left read
  obtain ⟨middle, behind, before, read⟩ := bind_eq_done.mp read
  obtain ⟨shorter, longer⟩ := first before
  obtain ⟨shorter', longer'⟩ := second middle read
  refine ⟨Nat.le_trans shorter' shorter, fun rest ends => ?_⟩
  rw [bind_of_done (longer rest ends)]
  exact longer' rest ends

theorem ExtendsInside.bind {reader longer : Reader α} {next longerNext : α → Reader β}
    (first : ExtendsInside reader longer) (second : ∀ value, Extends (next value) (longerNext value)) :
    ExtendsInside (reader >>= next) (longer >>= longerNext) := by
  intro octet input value left read
  obtain ⟨middle, behind, before, read⟩ := bind_eq_done.mp read
  obtain ⟨shorter, longer⟩ := first before
  obtain ⟨shorter', longer'⟩ := second middle read
  refine ⟨Nat.le_trans shorter' shorter, fun rest ends => ?_⟩
  rw [bind_of_done (longer rest ends)]
  exact longer' rest ends

/-- A reader that never takes everything. -/
theorem Extends.bindInside {reader longer : Reader α} {next longerNext : α → Reader β}
    (first : Extends reader longer) (leaves : ∀ input value, reader input ≠ .done value [])
    (second : ∀ value, ExtendsInside (next value) (longerNext value)) :
    Extends (reader >>= next) (longer >>= longerNext) := by
  intro input value left read
  obtain ⟨middle, behind, before, read⟩ := bind_eq_done.mp read
  cases behind with
  | nil => exact absurd before (leaves _ _)
  | cons octet behind =>
    obtain ⟨shorter, longer⟩ := first before
    obtain ⟨shorter', longer'⟩ := second middle read
    refine ⟨Nat.le_trans shorter' shorter, fun rest ends => ?_⟩
    rw [bind_of_done (longer rest ends)]
    exact longer' rest ends

theorem extends_skipOne : ExtendsInside skipOne skipOne := by
  intro octet input value left read
  cases read
  exact ⟨Nat.le_succ _, fun _ _ => rfl⟩

theorem ExtendsInside.next {next longerNext : Option Char → Reader α}
    (some : ∀ c, Extends (next (some c)) (longerNext (some c))) :
    ExtendsInside (Reader.next >>= next) (Reader.next >>= longerNext) :=
  fun _ _ _ _ read =>
    have ⟨shorter, longer⟩ := some _ read
    ⟨Nat.le_succ_of_le shorter, longer⟩

theorem Extends.next {next longerNext : Option Char → Reader α}
    (none : ∀ value left, next none [] ≠ .done value left)
    (some : ∀ c, Extends (next (some c)) (longerNext (some c))) :
    Extends (Reader.next >>= next) (Reader.next >>= longerNext) := by
  intro input value left read
  cases input with
  | nil => exact absurd read (none _ _)
  | cons octet input => exact ExtendsInside.next some read

theorem ExtendsInside.peek {next longerNext : Option Char → Reader α}
    (some : ∀ c, ExtendsInside (next (some c)) (longerNext (some c))) :
    ExtendsInside (Reader.peek >>= next) (Reader.peek >>= longerNext) :=
  fun _ _ _ _ read => some _ read

theorem Extends.peek {next longerNext : Option Char → Reader α}
    (none : ∀ value left, next none [] ≠ .done value left)
    (some : ∀ c, ExtendsInside (next (some c)) (longerNext (some c))) :
    Extends (Reader.peek >>= next) (Reader.peek >>= longerNext) := by
  intro input value left read
  cases input with
  | nil => exact absurd read (none _ _)
  | cons octet input => exact some _ read

theorem Extends.ahead {next longerNext : Option Char → Reader α}
    (none : ∀ value left, next none [] ≠ .done value left)
    (some : ∀ c, ExtendsInside (next (some c)) (longerNext (some c))) :
    Extends (Reader.ahead >>= next) (Reader.ahead >>= longerNext) := by
  intro input value left read
  rw [ahead_bind] at read
  obtain ⟨shorter, longer⟩ := Extends.peek none some read
  refine ⟨Nat.le_trans shorter (List.dropWhile_suffix _).length_le, fun rest ends => ?_⟩
  rw [ahead_bind, List.dropWhile_append]
  split
  next blank =>
    rw [List.isEmpty_iff.mp blank] at read
    exact absurd read (none _ _)
  next => exact longer rest ends

theorem ExtendsInside.placed {reader longer : Reader α} (extends' : ExtendsInside reader longer) :
    ExtendsInside (placed reader) (placed longer) := by
  intro octet input value left read
  unfold Reader.placed at read ⊢
  split at read
  next same =>
    cases read
    obtain ⟨shorter, longer⟩ := extends' same
    refine ⟨shorter, fun rest ends => ?_⟩
    rw [longer rest ends]
  next => cases read

theorem enclosed_eq_done {body : Reader α} {close : Reader Unit} {input left : List UInt8} {value : α} :
    enclosed body close input = .done value left ↔
      ∃ middle, body input = .done value middle ∧ close middle = .done () left := by
  unfold enclosed
  constructor
  · intro read
    split at read
    next middle same =>
      split at read
      next closed =>
        cases read
        exact ⟨middle, same, closed⟩
      next => cases read
    next => split at read <;> cases read
  · rintro ⟨middle, same, closed⟩
    simp only [same, closed]

theorem Extends.enclosed {body longer : Reader α} {close : Reader Unit} (inside : Extends body longer)
    (closes : Extends close close) : Extends (enclosed body close) (Reader.enclosed longer close) := by
  intro input value left read
  obtain ⟨middle, same, closed⟩ := enclosed_eq_done.mp read
  obtain ⟨shorter, longer⟩ := inside same
  obtain ⟨shorter', longer'⟩ := closes closed
  exact ⟨Nat.le_trans shorter' shorter, fun rest ends =>
    enclosed_eq_done.mpr ⟨middle ++ rest, longer rest ends, longer' rest ends⟩⟩

theorem Extends.bounded {loop longer : Nat → Reader α}
    (extends' : ∀ bound larger, bound ≤ larger → Extends (loop bound) (longer larger)) :
    Extends (bounded loop) (Reader.bounded longer) := by
  intro input value left read
  refine ⟨(extends' _ _ (Nat.le_refl _) read).1, fun rest ends => (extends' input.length _ ?_ read).2 rest ends⟩
  rw [List.length_append]
  omega

/-- A character that no value goes on with. -/
def Closing (c : Char) : Prop := c ∈ [' ', '\n', '\t', '\r', ',', ']', '\x7d']

instance (c : Char) : Decidable (Closing c) := inferInstanceAs (Decidable (_ ∈ _))

private theorem closing_of_space {octet : UInt8} : isSpace octet = true → Closing (character octet) :=
  forall_octet (p := fun octet => isSpace octet = true → Closing (character octet)) (by decide +kernel) octet

theorem Ends.closing {octet : UInt8} {rest : List UInt8} (ends : Ends (octet :: rest)) :
    Closing (character octet) := by
  by_cases space : isSpace octet = true
  · exact closing_of_space space
  · have mark := ends octet (by simp [space])
    exact List.mem_append_right [' ', '\n', '\t', '\r'] mark

theorem Closing.cases {p : Char → Prop} (space : p ' ') (line : p '\n') (tab : p '\t') (carriage : p '\r')
    (comma : p ',') (list : p ']') (object : p '\x7d') (c : Char) (closing : Closing c) : p c := by
  simp only [Closing, List.mem_cons, List.not_mem_nil, or_false] at closing
  obtain rfl | rfl | rfl | rfl | rfl | rfl | rfl := closing <;> assumption

theorem Extends.peekOrEnd {next longerNext : Option Char → Reader α}
    (closing : ∀ c, Closing c → longerNext (some c) = longerNext none)
    (none : Extends (next none) (longerNext none))
    (some : ∀ c, ExtendsInside (next (some c)) (longerNext (some c))) :
    Extends (Reader.peek >>= next) (Reader.peek >>= longerNext) := by
  intro input value left read
  cases input with
  | cons octet input => exact some _ read
  | nil =>
    obtain ⟨shorter, longer⟩ := none read
    refine ⟨shorter, fun rest ends => ?_⟩
    have read := longer rest ends
    cases rest with
    | nil => exact read
    | cons octet rest =>
      rw [← closing _ ends.closing] at read
      exact read

/-- The mark comes next, whatever blanks stand in front of it. -/
def Next (mark : UInt8) (input left : List UInt8) : Prop := input.dropWhile isSpace = mark :: left

theorem ahead_of_next {mark : UInt8} {input left : List UInt8} (seen : Next mark input left)
    (next : Option Char → Reader α) : (ahead >>= next) input = next (some (character mark)) (mark :: left) := by
  rw [ahead_bind, seen, peek_bind, List.head?_cons, Option.map_some]

theorem Next.of_ahead {next : Option Char → Reader α} {input left : List UInt8} {value : α}
    (none : ∀ value left, next none [] ≠ .done value left) (read : (ahead >>= next) input = .done value left) :
    ∃ mark rest, Next mark input rest ∧ Takes (next (some (character mark))) (mark :: rest) value left := by
  rw [ahead_bind, peek_bind] at read
  cases seen : input.dropWhile isSpace with
  | nil =>
    rw [seen] at read
    exact absurd read (none _ _)
  | cons mark rest =>
    rw [seen] at read
    exact ⟨mark, rest, seen, read⟩

theorem next_of_head {input : List UInt8} {c : Char} (seen : (input.dropWhile isSpace).head?.map character = some c) :
    ∃ mark rest, Next mark input rest ∧ character mark = c := by
  obtain ⟨mark, first, same⟩ := Option.map_eq_some_iff.mp seen
  obtain ⟨rest, whole⟩ := List.head?_eq_some_iff.mp first
  exact ⟨mark, rest, whole, same⟩

theorem closeList_eq_done {input left : List UInt8} : closeList input = .done () left ↔ Next 93 input left := by
  constructor
  · intro read
    obtain ⟨mark, rest, seen, read⟩ := Next.of_ahead (fails_failAhead _ _) read
    split at read
    next list =>
      cases read
      cases eq_of_character (k := 93) (Option.some.inj list) rfl
      exact seen
    next =>
      refine absurd read (Fails.after (fun _ => Fails.after fun c => ?_) _ _ _)
      split <;> exact fails_failAhead _
    next => cases read
    next => contradiction
  · intro seen
    exact ahead_of_next seen _

theorem closeObject_eq_done {input left : List UInt8} : closeObject input = .done () left ↔ Next 125 input left := by
  constructor
  · intro read
    obtain ⟨mark, rest, seen, read⟩ := Next.of_ahead (fails_failAhead _ _) read
    split at read
    next object =>
      cases read
      cases eq_of_character (k := 125) (Option.some.inj object) rfl
      exact seen
    next => cases read
    next => cases read
    next => contradiction
  · intro seen
    exact ahead_of_next seen _

theorem colon_eq_done {input left : List UInt8} : colon input = .done () left ↔ Next 58 input left := by
  constructor
  · intro read
    obtain ⟨mark, rest, seen, read⟩ := Next.of_ahead (fails_failAhead _ _) read
    split at read
    next colon =>
      cases read
      cases eq_of_character (k := 58) (Option.some.inj colon) rfl
      exact seen
    next => cases read
    next => contradiction
  · intro seen
    exact ahead_of_next seen _

/-- How a list goes on: it ends, or an item comes, the first or one behind a comma. -/
inductive MoreItems : Bool → List UInt8 → Bool → List UInt8 → Prop
  | ends {first : Bool} {input rest : List UInt8} (seen : Next 93 input rest) :
    MoreItems first input false (93 :: rest)
  | starts {input rest : List UInt8} {octet : UInt8} (seen : Next octet input rest) (item : octet ≠ 93) :
      MoreItems true input true (octet :: rest)
  | continues {input behind rest : List UInt8} {octet : UInt8} (comma : Next 44 input behind)
      (seen : Next octet behind rest) (item : octet ≠ 93) : MoreItems false input true (octet :: rest)

theorem moreItems_eq_done {first more : Bool} {input left : List UInt8} :
    moreItems first input = .done more left ↔ MoreItems first input more left := by
  constructor
  · intro read
    obtain ⟨mark, rest, seen, went⟩ := Next.of_ahead (fails_failAhead _ _) read
    split at went
    next => contradiction
    next list =>
      cases went
      cases eq_of_character (k := 93) (Option.some.inj list) rfl
      exact .ends seen
    next no_list same =>
      cases same
      cases first with
      | true =>
        cases went
        exact .starts seen fun list => no_list (list ▸ rfl)
      | false =>
        rw [if_neg Bool.false_ne_true] at went
        split at went
        next comma =>
          cases eq_of_character (k := 44) comma rfl
          obtain ⟨_, _, skipped, went⟩ := bind_eq_done.mp went
          cases skipped
          obtain ⟨octet, rest, next, went⟩ := Next.of_ahead (fails_failAhead _ _) went
          split at went
          next => cases went
          next no_list other =>
            cases other
            cases went
            exact .continues seen next fun list => no_list (list ▸ rfl)
          next => contradiction
        next => cases went
  · intro goes
    cases goes with
    | ends seen => exact ahead_of_next seen _
    | starts seen item =>
      refine (ahead_of_next seen _).trans ?_
      change Takes _ _ _ _
      split
      next => contradiction
      next list => exact absurd (eq_of_character (Option.some.inj list) rfl) item
      next => rfl
    | continues comma seen item =>
      refine (ahead_of_next comma _).trans ?_
      change (skipOne >>= _) _ = _
      rw [skipOne_bind, ahead_of_next seen]
      change Takes _ _ _ _
      split
      next list => exact absurd (eq_of_character (Option.some.inj list) rfl) item
      next => rfl
      next => contradiction

/-- How an object goes on: it ends, or a key comes, of the first member or behind a comma. -/
inductive MoreMembers : Bool → List UInt8 → Bool → List UInt8 → Prop
  | ends {first : Bool} {input rest : List UInt8} (seen : Next 125 input rest) :
      MoreMembers first input false (125 :: rest)
  | starts {input rest : List UInt8} (seen : Next 34 input rest) : MoreMembers true input true rest
  | continues {input behind rest : List UInt8} (comma : Next 44 input behind) (seen : Next 34 behind rest) :
      MoreMembers false input true rest

theorem moreMembers_eq_done {first more : Bool} {input left : List UInt8} :
    moreMembers first input = .done more left ↔ MoreMembers first input more left := by
  constructor
  · intro read
    obtain ⟨mark, rest, seen, went⟩ := Next.of_ahead (fails_failAhead _ _) read
    split at went
    next => contradiction
    next object =>
      cases went
      cases eq_of_character (k := 125) (Option.some.inj object) rfl
      exact .ends seen
    next same =>
      cases same
      cases first with
      | true =>
        rw [if_pos rfl] at went
        split at went
        next quote =>
          cases eq_of_character (k := 34) quote rfl
          cases went
          exact .starts seen
        next => cases went
      | false =>
        rw [if_neg Bool.false_ne_true] at went
        split at went
        next comma =>
          cases eq_of_character (k := 44) comma rfl
          obtain ⟨_, _, skipped, went⟩ := bind_eq_done.mp went
          cases skipped
          obtain ⟨octet, rest, next, went⟩ := Next.of_ahead (fails_failAhead _ _) went
          split at went
          next quote =>
            cases eq_of_character (k := 34) (Option.some.inj quote) rfl
            cases went
            exact .continues seen next
          next => cases went
          next => cases went
          next => contradiction
        next => cases went
  · intro goes
    cases goes with
    | ends seen => exact ahead_of_next seen _
    | starts seen => exact ahead_of_next seen _
    | continues comma seen =>
      refine (ahead_of_next comma _).trans ?_
      change (skipOne >>= _) _ = _
      rw [skipOne_bind, ahead_of_next seen]
      rfl

theorem extends_word (letters : List Char) : Extends (word letters) (word letters) := by
  induction letters with
  | nil => exact .pure ()
  | cons letter letters ih =>
    refine .next (fails_failHere _ _) fun c => ?_
    change Extends (if c = letter then word letters else _) (if c = letter then word letters else _)
    split
    · exact ih
    · exact (fails_failHere _).extends _

theorem extends_closeList : Extends closeList closeList := by
  refine .ahead (fails_failAhead _ _) fun c => ?_
  split
  next => exact extends_skipOne
  next =>
    refine (Fails.after fun _ => Fails.after fun c => ?_).extendsInside _
    split <;> exact fails_failAhead _
  next => exact (fails_failAhead _).extendsInside _
  next => exact (fails_failAhead _).extendsInside _

theorem extends_closeObject : Extends closeObject closeObject := by
  refine .ahead (fails_failAhead _ _) fun c => ?_
  split
  next => exact extends_skipOne
  next => exact (fails_failAhead _).extendsInside _
  next => exact (fails_failAhead _).extendsInside _
  next => exact (fails_failAhead _).extendsInside _

theorem extends_colon : Extends colon colon := by
  refine .ahead (fails_failAhead _ _) fun c => ?_
  split
  next => exact extends_skipOne
  next => exact (fails_failAhead _).extendsInside _
  next => exact (fails_failAhead _).extendsInside _

theorem extends_moreItems (first : Bool) : Extends (moreItems first) (moreItems first) := by
  refine .ahead (fails_failAhead _ _) fun c => ?_
  split
  next => exact (fails_failAhead _).extendsInside _
  next => exact (Extends.pure false).inside
  next =>
    split
    · exact (Extends.pure true).inside
    · split
      · refine extends_skipOne.bind fun _ => .ahead (fails_failAhead _ _) fun c => ?_
        split
        next => exact (fails_failAhead _).extendsInside _
        next => exact (Extends.pure true).inside
        next => exact (fails_failAhead _).extendsInside _
      · exact (fails_failAhead _).extendsInside _

private theorem extends_moreMembers (first : Bool) : Extends (moreMembers first) (moreMembers first) := by
  refine .ahead (fails_failAhead _ _) fun c => ?_
  split
  next => exact (fails_failAhead _).extendsInside _
  next => exact (Extends.pure false).inside
  next =>
    split
    · split
      · exact extends_skipOne.bind fun _ => .pure true
      · exact (fails_failAhead _).extendsInside _
    · split
      · refine extends_skipOne.bind fun _ => .ahead (fails_failAhead _ _) fun c => ?_
        split
        next => exact extends_skipOne.bind fun _ => .pure true
        next => exact (fails_failAhead _).extendsInside _
        next => exact (fails_failAhead _).extendsInside _
        next => exact (fails_failAhead _).extendsInside _
      · exact (fails_failAhead _).extendsInside _

theorem extends_items {item : Reader α} (extends' : Extends item item) (first : Bool) {bound larger : Nat}
    (le : bound ≤ larger) : Extends (items item first bound) (items item first larger) := by
  induction bound generalizing first larger with
  | zero => exact (fails_failAhead _).extends _
  | succ bound ih =>
    obtain ⟨larger, rfl⟩ := Nat.exists_eq_add_of_lt le
    refine (extends_moreItems first).bind fun more => ?_
    cases more with
    | false => exact .pure []
    | true => exact extends'.bind fun value => (ih false (by omega)).bind fun values => .pure _

theorem extends_members {key : Reader String} {step : String → σ → Reader σ} (keys : Extends key key)
    (steps : ∀ name state, Extends (step name state) (step name state)) (first : Bool) (state : σ)
    {bound larger : Nat} (le : bound ≤ larger) :
    Extends (members key step first state bound) (members key step first state larger) := by
  induction bound generalizing first state larger with
  | zero => exact (fails_failAhead _).extends _
  | succ bound ih =>
    obtain ⟨larger, rfl⟩ := Nat.exists_eq_add_of_lt le
    refine (extends_moreMembers first).bind fun more => ?_
    cases more with
    | false => exact .pure state
    | true => exact keys.bind fun name => (steps name state).bind fun state => ih false state (by omega)

end LedgerClient.Json.Reader

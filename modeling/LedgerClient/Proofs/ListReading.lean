import Mathlib.Data.List.Forall2
import LedgerClient.Proofs.Recognition

/-! Lists with the texts of their items, and what the readers of lists make of them: they go
from item to item, and each item is read as it would be if it stood alone. -/

namespace LedgerClient.Json

theorem exists_forall₂_iff {R : α → β → Prop} {items : List α} :
    (∃ values, items.Forall₂ R values) ↔ ∀ item ∈ items, ∃ value, R item value := by
  constructor
  · rintro ⟨values, all⟩
    induction all with
    | nil => exact nofun
    | cons first _ ih => exact List.forall_mem_cons.mpr ⟨⟨_, first⟩, ih⟩
  · intro all
    induction items with
    | nil => exact ⟨[], .nil⟩
    | cons item items ih =>
      obtain ⟨⟨value, first⟩, others⟩ := List.forall_mem_cons.mp all
      obtain ⟨values, rest⟩ := ih others
      exact ⟨value :: values, .cons first rest⟩

theorem exists_of_forall₂ {R : α → β → Prop} {items : List α} {values : List β} (all : items.Forall₂ R values)
    {item : α} (among : item ∈ items) : ∃ value ∈ values, R item value := by
  induction all with
  | nil => cases among
  | cons first _ ih =>
    rcases List.mem_cons.mp among with rfl | among
    · exact ⟨_, List.mem_cons_self, first⟩
    · obtain ⟨value, among, same⟩ := ih among
      exact ⟨value, List.mem_cons_of_mem _ among, same⟩

/-- What goes with the one list goes with the other, if it does item for item. -/
theorem forall₂_exchange {R : α → β → Prop} {S : α → γ → Prop} {T : β → γ → Prop} {before : List α} {after : List β}
    {values : List γ} (all : before.Forall₂ R after)
    (each : ∀ item ∈ before, ∀ other ∈ after, R item other → ∀ value, S item value → T other value)
    (here : before.Forall₂ S values) : after.Forall₂ T values := by
  induction all generalizing values with
  | nil =>
    cases here
    exact .nil
  | cons first _ ih =>
    cases here with
    | cons value others =>
      refine .cons (each _ List.mem_cons_self _ List.mem_cons_self first _ value) (ih ?_ others)
      exact fun item among other among' =>
        each item (List.mem_cons_of_mem _ among) other (List.mem_cons_of_mem _ among')

/-- What belongs to an item stands at the same place. -/
theorem forall₂_middle {R : α → β → Prop} {before after : List α} {item : α} {values : List β}
    (all : (before ++ item :: after).Forall₂ R values) :
    ∃ value, values[before.length]? = some value ∧ R item value := by
  induction before generalizing values with
  | nil =>
    cases all with
    | cons first _ => exact ⟨_, rfl, first⟩
  | cons _ _ ih =>
    cases all with
    | cons _ rest => exact ih rest

namespace Reader

private theorem Next.here_iff {mark octet : UInt8} (visible : isSpace octet = false) {rest left : List UInt8} :
    Next mark (octet :: rest) left ↔ mark = octet ∧ left = rest := by
  rw [Next, Next.here visible, List.cons.injEq, eq_comm, @eq_comm _ rest]

private theorem Next.append {mark : UInt8} {input left : List UInt8} (seen : Next mark input left) (tail : List UInt8) :
    Next mark (input ++ tail) (left ++ tail) := by
  rw [Next, List.dropWhile_append, seen]
  rfl

end Reader

namespace Grammar
open Reader

/-- What stands between the brackets of a list with the given texts of items. -/
inductive Items : List (List UInt8) → List UInt8 → Prop
  | blank {octets : List UInt8} (blank : Blank octets) : Items [] octets
  | items {texts : List (List UInt8)} (some : texts ≠ []) (sound : ∀ text ∈ texts, Text text) :
      Items texts (commas texts)

/-- The texts of a list with the given texts of items. -/
inductive Sequence (texts : List (List UInt8)) : List UInt8 → Prop
  | brackets {before inside after : List UInt8} (front : Blank before) (sound : Items texts inside)
      (back : Blank after) : Sequence texts (before ++ 91 :: (inside ++ 93 :: after))

theorem blank_nil : Blank [] := nofun

private theorem Text.next {text : List UInt8} (sound : Text text) :
    ∃ octet others, Next octet text others ∧ octet ≠ 93 := by
  obtain ⟨_, _, skipped⟩ := passed_text sound [] ends_nil
  obtain ⟨octet, others, seen, item⟩ := Next.of_skip skipped
  rw [Next, dropWhile_again, List.append_nil] at seen
  exact ⟨octet, others, seen, item⟩

/-- A text that starts with a bracket is that of a list. -/
theorem Text.sequence {octets rest : List UInt8} (text : Text octets) (seen : Next 91 octets rest) :
    ∃ texts, Sequence texts octets := by
  induction text generalizing rest with
  | null | true | false => cases seen
  | @number sign whole _ _ signed digits =>
    obtain ⟨octet, others, rfl, digit⟩ := digits.first
    rcases signed with rfl | rfl
    · have number := (isDigit_eq octet).symm.trans digit
      cases ((Next.here_iff (visible_of_number (.inr number)).1).mp seen).1
      cases digit
    · cases ((Next.here_iff rfl).mp seen).1
  | string | emptyObject | object => cases ((Next.here_iff rfl).mp seen).1
  | emptyList blank => exact ⟨[], @Sequence.brackets _ [] _ _ blank_nil (.blank blank) blank_nil⟩
  | list some sound => exact ⟨_, @Sequence.brackets _ [] _ _ blank_nil (.items some sound) blank_nil⟩
  | @padded before text after front sound back ih =>
    obtain ⟨octet, others, first, _⟩ := sound.next
    have same : octet = 91 := by
      rw [Next, dropWhile_blank front, first.append] at seen
      exact (List.cons.inj seen).1
    cases same
    obtain ⟨texts, ⟨front', sound', back'⟩⟩ := ih first
    refine ⟨texts, ?_⟩
    have whole := Sequence.brackets (front.append front') sound' (back'.append back)
    simp only [List.append_assoc, List.cons_append] at whole ⊢
    exact whole

theorem sequence_printed {items : List Json} (sound : ∀ item ∈ items, Text (printed item)) :
    Sequence (items.map printed) (printed (.array items)) := by
  rw [printed_array]
  refine @Sequence.brackets _ [] _ [] blank_nil ?_ blank_nil
  cases items with
  | nil => exact .blank blank_nil
  | cons => exact .items (List.cons_ne_nil _ _) (List.forall_mem_map.mpr sound)

end Grammar

namespace Reader
open Grammar

/-- A reader of values: it stops where passing over the value stops, what it takes is a text
of its own, and blanks in front of that do not matter. -/
structure Proper (reader : Reader α) : Prop where
  passes : Follows skip reader
  recognises : Recognises reader
  blank (input : List UInt8) : reader (input.dropWhile isSpace) = reader input

namespace Proper
variable {reader : Reader α} (proper : reader.Proper) {text tail left : List UInt8} {value : α}
include proper

private theorem reads_of_run (read : reader.run text = .ok value) : Reads reader text value := by
  obtain ⟨blank, all, first⟩ := run_eq_ok_iff.mp read
  have ends : Ends blank := by
    rw [← List.append_nil blank]
    exact ends_blank all ends_nil
  obtain ⟨taken, rfl, reads⟩ := proper.recognises first ends
  exact reads.behind all

/-- What is read of a text in front of others is what is read of it alone. -/
theorem run_of_taken (sound : Text text) (ends : Ends tail) (read : reader (text ++ tail) = .done value left) :
    reader.run text = .ok value ∧ ∃ blank, Blank blank ∧ left = blank ++ tail := by
  obtain ⟨_, skipped⟩ := proper.passes read
  obtain ⟨blank, all, skipped'⟩ := passed_text sound tail ends
  rw [skip_blank skipped'] at skipped
  cases skipped
  obtain ⟨taken, same, reads⟩ := proper.recognises read (ends_blank all ends)
  rw [← List.append_assoc] at same
  cases List.append_cancel_right same
  exact ⟨run_of_reads (reads.behind all), blank, all, rfl⟩

end Proper

theorem run_map_iff {reader : Reader α} {f : α → β} {octets : List UInt8} {value : β} :
    (reader >>= fun found => pure (f found)).run octets = .ok value ↔
      ∃ found, reader.run octets = .ok found ∧ f found = value := by
  simp only [run_eq_ok_iff, bind_eq_done]
  constructor
  · rintro ⟨left, back, found, _, read, done⟩
    cases done
    exact ⟨found, ⟨left, back, read⟩, rfl⟩
  · rintro ⟨found, ⟨left, back, read⟩, rfl⟩
    exact ⟨left, back, found, left, read, rfl⟩

theorem proper_value (depth : Nat) : Proper (value depth) :=
  ⟨passes_value depth, recognises_value depth, value_blank⟩

/-- The input goes on with the items and the bracket behind them. -/
inductive Series (rest : List UInt8) : Bool → List (List UInt8) → List UInt8 → Prop
  | ends {first : Bool} {input : List UInt8} (seen : Next 93 input rest) : Series rest first [] input
  | item {first : Bool} {input text others tail : List UInt8} {octet : UInt8} {texts : List (List UInt8)}
      (sound : Text text) (seen : Next octet text others)
      (more : MoreItems first input true (octet :: (others ++ tail))) (ends : Ends tail)
      (behind : ∀ blank, Blank blank → Series rest false texts (blank ++ tail)) :
      Series rest first (text :: texts) input

private theorem MoreItems.shorter {first : Bool} {input left : List UInt8} (more : MoreItems first input true left) :
    left.length ≤ input.length := by
  cases more with
  | starts seen => exact seen.shorter
  | continues comma seen => exact Nat.le_trans seen.shorter (Nat.le_of_lt comma.shorter)

private theorem Series.length_lt {rest input : List UInt8} {first : Bool} {texts : List (List UInt8)}
    (series : Series rest first texts input) : texts.length < input.length := by
  induction series with
  | ends seen => exact Nat.zero_lt_of_lt seen.shorter
  | item sound seen more ends _ ih =>
    have behind := ih [] blank_nil
    have shorter := more.shorter
    simp only [List.length_append, List.length_cons, List.nil_append] at behind shorter ⊢
    omega

/-- Behind an item come the others, each behind a comma. -/
theorem series_behind {texts : List (List UInt8)} (sound : ∀ text ∈ texts, Text text) (rest : List UInt8) :
    ∃ tail, Ends tail ∧ (∀ blank, Blank blank → Series rest false texts (blank ++ tail)) ∧
      ∀ text, commas (text :: texts) ++ 93 :: rest = text ++ tail := by
  induction texts with
  | nil => exact ⟨_, ends_of_mark (by simp) _, fun blank all => .ends (Next.behind all rfl rest), fun _ => rfl⟩
  | cons next texts ih =>
    obtain ⟨here, sound⟩ := List.forall_mem_cons.mp sound
    obtain ⟨tail, ends, behind, same⟩ := ih sound
    refine ⟨44 :: (next ++ tail), ends_of_mark (by simp) _, fun blank all => ?_, fun text => ?_⟩
    · obtain ⟨octet, others, seen, item⟩ := here.next
      exact .item here seen (.continues (Next.behind all rfl _) (seen.append tail) item) ends behind
    · rw [← same, commas, List.append_assoc, List.cons_append]
      exact List.cons_ne_nil _ _

theorem series_of_items {texts : List (List UInt8)} {inside : List UInt8} (sound : Items texts inside)
    (rest : List UInt8) : Series rest true texts (inside ++ 93 :: rest) := by
  cases sound with
  | blank blank => exact .ends (Next.behind blank rfl rest)
  | items some sound =>
    cases texts with
    | nil => exact absurd rfl some
    | cons text texts =>
      obtain ⟨here, sound⟩ := List.forall_mem_cons.mp sound
      obtain ⟨tail, ends, behind, same⟩ := series_behind sound rest
      obtain ⟨octet, others, seen, item⟩ := here.next
      rw [same]
      exact .item here seen (.starts (seen.append tail) item) ends behind

section
variable {item : Reader α} (proper : item.Proper) {text others tail left : List UInt8} {octet : UInt8}
  (sound : Text text) (seen : Next octet text others) (ends : Ends tail)
include proper seen ends

theorem Proper.run_of_item (sound : Text text) {value : α}
    (read : item (octet :: (others ++ tail)) = .done value left) :
    item.run text = .ok value ∧ ∃ blank, Blank blank ∧ left = blank ++ tail := by
  rw [← seen.append tail, proper.blank] at read
  exact proper.run_of_taken sound ends read

theorem Proper.item_of_run {value : α} (read : item.run text = .ok value) :
    ∃ blank, Blank blank ∧ item (octet :: (others ++ tail)) = .done value (blank ++ tail) := by
  rw [← seen.append tail, proper.blank]
  exact proper.reads_of_run read tail ends

end

section
variable {item : Reader α} (proper : item.Proper) {rest : List UInt8} {texts : List (List UInt8)} {values : List α}
include proper

private theorem items_eq_done {first : Bool} {input stop : List UInt8} {bound : Nat}
    (series : Series rest first texts input)
    (enough : texts.length < bound) : items item first bound input = .done values stop ↔
      stop = 93 :: rest ∧ texts.Forall₂ (fun text value => item.run text = .ok value) values := by
  obtain ⟨bound, rfl⟩ := Nat.exists_eq_add_of_le' (Nat.one_le_of_lt enough)
  induction series generalizing bound values with
  | ends seen =>
    rw [items, bind_of_done (moreItems_eq_done.mpr (.ends seen)), List.forall₂_nil_left_iff]
    constructor
    · intro done
      cases done
      exact ⟨rfl, rfl⟩
    · rintro ⟨rfl, rfl⟩
      rfl
  | item sound seen more ends _ ih =>
    have enough := Nat.lt_of_succ_lt_succ enough
    obtain ⟨bound, rfl⟩ := Nat.exists_eq_add_of_le' (Nat.one_le_of_lt enough)
    rw [items, bind_of_done (moreItems_eq_done.mpr more), List.forall₂_cons_left_iff]
    change (item >>= _) _ = _ ↔ _
    constructor
    · intro read
      obtain ⟨value, _, here, others⟩ := bind_eq_done.mp read
      obtain ⟨values, _, others, done⟩ := bind_eq_done.mp others
      cases done
      obtain ⟨alone, blank, all, rfl⟩ := proper.run_of_item seen ends sound here
      obtain ⟨stops, others⟩ := (ih blank all bound enough).mp others
      exact ⟨stops, value, values, alone, others, rfl⟩
    · rintro ⟨rfl, value, values, alone, others, rfl⟩
      obtain ⟨blank, all, here⟩ := proper.item_of_run seen ends alone
      rw [bind_of_done here, bind_of_done ((ih blank all bound enough).mpr ⟨rfl, others⟩)]
      rfl

theorem list_eq_done {inside left : List UInt8} (sound : Items texts inside) :
    list item (91 :: (inside ++ 93 :: rest)) = .done values left ↔
      left = rest ∧ texts.Forall₂ (fun text value => item.run text = .ok value) values := by
  have series := series_of_items sound rest
  change enclosed (bounded (items item true)) closeList (inside ++ 93 :: rest) = _ ↔ _
  rw [enclosed_eq_done]
  constructor
  · rintro ⟨stop, read, closed⟩
    obtain ⟨rfl, alone⟩ := (items_eq_done proper series series.length_lt).mp read
    exact ⟨(closeList_eq_done.mp closed).again rfl, alone⟩
  · rintro ⟨rfl, alone⟩
    exact ⟨_, (items_eq_done proper series series.length_lt).mpr ⟨rfl, alone⟩,
      closeList_eq_done.mpr (Next.here rfl _)⟩

end

end Reader
end LedgerClient.Json

import LedgerClient.Text.Split

/-! Cutting a text at marks undoes joining parts that hold none, and the parts of any
text hold none. -/

namespace LedgerClient.Text

variable {marks : Char → Bool}

def Free (marks : Char → Bool) (part : List Char) : Prop := ∀ c ∈ part, marks c = false

theorem splitBy_free {part : List Char} (free : Free marks part) : splitBy marks part = [part] := by
  induction part with
  | nil => rfl
  | cons c part ih =>
    have plain : marks c = false := free c List.mem_cons_self
    rw [splitBy, ih fun d inside => free d (List.mem_cons_of_mem c inside)]
    simp only [plain, Bool.false_eq_true, ite_false]

theorem splitBy_append {part : List Char} (free : Free marks part) {mark : Char} (ends : marks mark = true)
    (rest : List Char) : splitBy marks (part ++ mark :: rest) = part :: splitBy marks rest := by
  induction part with
  | nil => simp only [List.nil_append, splitBy, ends, ite_true]
  | cons c part ih =>
    have plain : marks c = false := free c List.mem_cons_self
    rw [List.cons_append, splitBy, ih fun d inside => free d (List.mem_cons_of_mem c inside)]
    simp only [plain, Bool.false_eq_true, ite_false]

private theorem splitBy_ne_nil (text : List Char) : splitBy marks text ≠ [] := by
  cases text with
  | nil => exact List.cons_ne_nil _ _
  | cons c rest =>
    rw [splitBy]
    split
    · exact List.cons_ne_nil _ _
    · split <;> exact List.cons_ne_nil _ _

theorem mem_part {text part : List Char} {c : Char} (present : part ∈ splitBy marks text) (inside : c ∈ part) :
    c ∈ text ∧ marks c = false := by
  induction text generalizing part with
  | nil =>
    rw [splitBy, List.mem_singleton] at present
    subst present
    cases inside
  | cons d rest ih =>
    rw [splitBy] at present
    split at present
    next mark =>
      rcases List.mem_cons.mp present with rfl | present
      · cases inside
      · have found := ih present inside
        exact ⟨List.mem_cons_of_mem d found.1, found.2⟩
    next plain =>
      split at present
      next none => exact absurd none (splitBy_ne_nil rest)
      next first parts same =>
        rw [same] at ih
        rcases List.mem_cons.mp present with rfl | present
        · rcases List.mem_cons.mp inside with rfl | inside
          · exact ⟨List.mem_cons_self, eq_false_of_ne_true plain⟩
          · have found := ih List.mem_cons_self inside
            exact ⟨List.mem_cons_of_mem d found.1, found.2⟩
        · have found := ih (List.mem_cons_of_mem first present) inside
          exact ⟨List.mem_cons_of_mem d found.1, found.2⟩

/-- Parts with a mark in front of each, cut at the marks; nothing stands in front of
the first one. -/
theorem splitOn_flatMap (mark : Char) {parts : List (List Char)} (free : ∀ part ∈ parts, mark ∉ part) :
    splitOn mark (parts.flatMap fun part => mark :: part) = [] :: parts := by
  have plain : ∀ part ∈ parts, Free (· = mark) part := fun part present c inside =>
    decide_eq_false fun same => free part present (same ▸ inside)
  suffices behind : ∀ front, Free (· = mark) front →
      splitOn mark (front ++ parts.flatMap fun part => mark :: part) = front :: parts from
    behind [] fun c inside => nomatch inside
  clear free
  induction parts with
  | nil =>
    intro front free
    rw [List.flatMap_nil, List.append_nil]
    exact splitBy_free free
  | cons part parts ih =>
    intro front free
    rw [List.flatMap_cons, List.cons_append, splitOn, splitBy_append free (decide_eq_true rfl)]
    have rest := ih (fun other present => plain other (List.mem_cons_of_mem part present)) part
      (plain part List.mem_cons_self)
    rw [splitOn] at rest
    rw [rest]

end LedgerClient.Text

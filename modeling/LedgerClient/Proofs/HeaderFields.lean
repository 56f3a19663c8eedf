import LedgerClient.Client.Basic

/-! Header fields by name. Each way of putting fields together is known by what becomes
of the values under one name, in whatever order the fields of other names stand. -/

namespace LedgerClient

/-- A computation succeeds if both of its parts do. -/
theorem bind_eq_ok {first : Except ε α} {next : α → Except ε β} {result : β} :
    first >>= next = .ok result ↔ ∃ value, first = .ok value ∧ next value = .ok result := by
  cases first with
  | error fault => exact ⟨fun done => (nomatch done), fun ⟨_, done, _⟩ => (nomatch done)⟩
  | ok value =>
    constructor
    · exact fun done => ⟨value, rfl, done⟩
    · rintro ⟨_, same, done⟩
      cases same
      exact done

namespace HeaderName

/-- Whether a text spells a name, in capitals or not. -/
def spells (name : HeaderName) (text : String) : Bool := text.toList.map Char.toLower = name.text.toList

/-- The texts that stand in pairs under a name, in any spelling of it. -/
def texts (name : HeaderName) (pairs : List (String × String)) : List String :=
  (pairs.filter fun pair => name.spells pair.1).map (·.2)

theorem spells_iff_of_parse? {text : String} {name other : HeaderName} (read : parse? text = some other) :
    name.spells text = true ↔ name = other := by
  simp only [parse?] at read
  split at read
  next valid =>
    split at read
    next short =>
      cases read
      cases name
      rw [spells, decide_eq_true_eq, HeaderName.mk.injEq, ← String.toList_inj, String.toList_ofList, eq_comm]
    next long => cases read
  next invalid => cases read

theorem texts_cons (name : HeaderName) (pair : String × String) (pairs : List (String × String)) :
    name.texts (pair :: pairs) = if name.spells pair.1 then pair.2 :: name.texts pairs else name.texts pairs := by
  rw [texts, List.filter_cons]
  split <;> rfl

/-- What goes out with a body of the texts under a name: all of them, except that transfer
codings are made to end in chunks, and go out with no body that is empty. -/
def outgoing (name : HeaderName) (octets : List UInt8) (texts : List String) : List String :=
  if name ≠ .transferEncoding then texts
  else if octets = [] then []
  else mapLast HeaderValue.inChunks texts

theorem outgoing_of_ne {name : HeaderName} (other : name ≠ .transferEncoding) (octets : List UInt8)
    (texts : List String) : name.outgoing octets texts = texts :=
  if_pos other

theorem outgoing_eq_nil {octets : List UInt8} (filled : octets ≠ []) {name : HeaderName} {texts : List String} :
    name.outgoing octets texts = [] ↔ texts = [] := by
  rw [outgoing, if_neg filled]
  split
  next other => rfl
  next coding => rcases texts with _ | ⟨_, _ | ⟨_, _⟩⟩ <;> simp only [mapLast, reduceCtorEq]

end HeaderName

private theorem map_mapLast {f : α → α} {g : α → β} {f' : β → β} (same : ∀ item, g (f item) = f' (g item))
    (items : List α) : (mapLast f items).map g = mapLast f' (items.map g) := by
  induction items using mapLast.induct with
  | case1 => rfl
  | case2 last => exact congrArg (fun text => [text]) (same last)
  | case3 first second rest ih => exact congrArg (g first :: ·) ih

namespace Headers

def texts (name : HeaderName) (headers : Headers) : List String := (headers.values name).map (·.text)

theorem values_of_texts {name : HeaderName} {headers others : Headers} (same : headers.texts name = others.texts name) :
    headers.values name = others.values name := by
  refine (List.map_inj_right fun value other equal => ?_).mp same
  cases value
  cases other
  cases equal
  rfl

theorem text_of_parse? {text : String} {value : HeaderValue} (read : HeaderValue.parse? text = some value) :
    value.text = text := by
  unfold HeaderValue.parse? at read
  split at read
  next valid =>
    cases read
    rfl
  next invalid => cases read

variable (name : HeaderName)

theorem texts_append (headers more : Headers) :
    (headers ++ more).texts name = headers.texts name ++ more.texts name := by
  rw [texts, values, List.filter_append, List.map_append, List.map_append]
  rfl

theorem texts_single (other : HeaderName) (value : HeaderValue) :
    texts name [(other, value)] = (if name = other then some value.text else none).toList := by
  rw [texts, values, List.filter_cons]
  by_cases same : name = other
  · rw [if_pos same, if_pos (decide_eq_true same.symm)]
    rfl
  · rw [if_neg same, if_neg fun equal => same (of_decide_eq_true equal).symm]
    rfl

private theorem texts_filter (keeps : HeaderName → Bool) (headers : Headers) :
    texts name (headers.filter fun field => keeps field.1) = if keeps name then headers.texts name else [] := by
  have along : ∀ field : HeaderName × HeaderValue,
      (decide (field.1 = name) && keeps field.1) = (decide (field.1 = name) && keeps name) := by
    intro field
    by_cases same : field.1 = name
    · rw [same]
    · rw [decide_eq_false same, Bool.false_and, Bool.false_and]
  rw [texts, values, List.filter_filter]
  simp only [along]
  cases keeps name with
  | true =>
    simp only [Bool.and_true]
    rfl
  | false =>
    rw [List.filter_eq_nil_iff.mpr]
    · rfl
    · exact fun field _ kept => Bool.false_ne_true ((Bool.and_false _).symm.trans kept)

theorem has_eq_false {headers : Headers} : headers.has name = false ↔ headers.texts name = [] := by
  rw [has, texts, values, List.map_eq_nil_iff, List.map_eq_nil_iff, List.filter_eq_nil_iff, List.any_eq_false]

theorem texts_insert (other : HeaderName) (value : HeaderValue) (headers : Headers) :
    texts name (headers.insert other value) = if name = other then [value.text] else headers.texts name := by
  rw [insert, texts_append, texts_filter name (· ≠ other), texts_single]
  by_cases same : name = other
  · rw [if_pos same, if_pos same, if_neg]
    · rfl
    · exact fun different => of_decide_eq_true different same
  · rw [if_neg same, if_neg same, if_pos (decide_eq_true same)]
    exact List.append_nil _

private theorem texts_missing (headers others : Headers) :
    texts name (others.filter fun field => !headers.has field.1) =
      if headers.texts name = [] then others.texts name else [] := by
  rw [texts_filter name (fun name => !headers.has name)]
  cases found : headers.has name with
  | false =>
    rw [if_pos ((has_eq_false name).mp found)]
    rfl
  | true =>
    rw [if_neg fun none => Bool.false_ne_true (((has_eq_false name).mpr none).symm.trans found)]
    rfl

theorem texts_replace (headers newer : Headers) :
    texts name (headers.replace newer) =
      if newer.texts name = [] then headers.texts name else newer.texts name := by
  rw [replace, texts_append, texts_missing]
  split
  next none => rw [none, List.append_nil]
  next some => exact List.nil_append _

theorem texts_fill (headers defaults : Headers) :
    texts name (headers.fill defaults) =
      if headers.texts name = [] then defaults.texts name else headers.texts name := by
  rw [fill, texts_append, texts_missing]
  split
  next none => rw [none, List.nil_append]
  next some => exact List.append_nil _

private theorem texts_pairs (other : HeaderName) (values : List HeaderValue) :
    texts name (values.map (other, ·)) = if name = other then values.map (·.text) else [] := by
  induction values with
  | nil => rw [List.map_nil, List.map_nil, ite_self]; rfl
  | cons value values ih =>
    rw [List.map_cons, ← List.singleton_append, texts_append, texts_single, ih]
    split
    · rfl
    · rfl

theorem texts_coded (headers : Headers) (octets : List UInt8) :
    (headers.coded octets).texts name = name.outgoing octets (headers.texts name) := by
  rw [coded, texts_append, texts_filter name (· ≠ .transferEncoding), HeaderName.outgoing]
  by_cases other : name ≠ .transferEncoding
  · rw [if_pos (decide_eq_true other), if_pos other]
    split
    · exact List.append_nil _
    · rw [texts_pairs, if_neg other, List.append_nil]
  · obtain rfl := Decidable.not_not.mp other
    rw [if_neg (mt of_decide_eq_true other), if_neg other, List.nil_append]
    split
    · rfl
    · have same : ∀ value : HeaderValue, value.chunked.text = HeaderValue.inChunks value.text := fun _ => rfl
      rw [texts_pairs, if_pos rfl]
      exact map_mapLast same _

example : HeaderName.transferEncoding.outgoing [1] ["chunked", "gzip"] = ["chunked", "gzip, chunked"] := by decide

example : HeaderName.transferEncoding.outgoing [1] ["gzip,\tChunked"] = ["gzip,\tChunked"] := by decide

end Headers
end LedgerClient

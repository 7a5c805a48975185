import Mathlib.Data.List.Basic

/-!
# Texts of tagged records

A record is written as its tag, its fields after a separator each, and a stop mark, nothing escaped.
A text can be read in one way only as long as no field holds the separator: the tag says how many
fields there are, and the stop mark before the next tag is the last one before the next separator.
-/

namespace CexHertz.Delimited

open List

variable {α : Type*} {c sep stop : α} {l l' r r' : List α}

/-! ## Splitting at a mark -/

theorem append_cons_inj_first (hl : c ∉ l) (hl' : c ∉ l') (h : l ++ c :: r = l' ++ c :: r') :
    l = l' ∧ r = r' := by
  induction l generalizing l' with
  | nil =>
    cases l' with
    | nil => exact ⟨rfl, tail_eq_of_cons_eq h⟩
    | cons a l' =>
      have hhead := head_eq_of_cons_eq h
      exact absurd (hhead ▸ mem_cons_self) hl'
  | cons a l ih =>
    cases l' with
    | nil =>
      have hhead := head_eq_of_cons_eq h
      exact absurd (hhead ▸ mem_cons_self) hl
    | cons b l' =>
      rw [mem_cons, not_or] at hl hl'
      obtain ⟨hleft, hright⟩ := ih hl.2 hl'.2 (tail_eq_of_cons_eq h)
      exact ⟨by rw [show a = b from head_eq_of_cons_eq h, hleft], hright⟩

theorem append_cons_inj_last (hr : c ∉ r) (hr' : c ∉ r') (h : l ++ c :: r = l' ++ c :: r') :
    l = l' ∧ r = r' := by
  have hreverse := congrArg List.reverse h
  rw [reverse_append, reverse_append, reverse_cons, reverse_cons,
    append_assoc, append_assoc] at hreverse
  obtain ⟨hright, hleft⟩ := append_cons_inj_first
    (fun hmem => hr (List.mem_reverse.mp hmem)) (fun hmem => hr' (List.mem_reverse.mp hmem))
    hreverse
  exact ⟨reverse_injective hleft, reverse_injective hright⟩

/-! ## Records -/

structure Record (α : Type*) where
  tag : List α
  fields : List (List α)

variable (sep stop)

def fieldsText (fields : List (List α)) : List α := fields.flatMap fun field => sep :: field

def Record.text (record : Record α) : List α := record.tag ++ fieldsText sep record.fields ++ [stop]

def render (records : List (Record α)) : List α := records.flatMap (Record.text sep stop)

structure Record.Clean (arity : List α → Nat) (record : Record α) : Prop where
  sep_tag : sep ∉ record.tag
  stop_tag : stop ∉ record.tag
  sep_fields : ∀ field ∈ record.fields, sep ∉ field
  arity_pos : 0 < record.fields.length
  arity_eq : record.fields.length = arity record.tag

def Follows (rest : List α) : Prop :=
  rest = [] ∨ ∃ tag more, rest = tag ++ sep :: more ∧ sep ∉ tag ∧ stop ∉ tag

variable {sep stop} {arity : List α → Nat} {field field' rest rest' : List α}
  {fields fields' : List (List α)} {record record' : Record α}
  {records records' : List (Record α)}

theorem last_field_inj (hne : sep ≠ stop) (hfield : sep ∉ field) (hfield' : sep ∉ field')
    (hrest : Follows sep stop rest) (hrest' : Follows sep stop rest')
    (h : field ++ stop :: rest = field' ++ stop :: rest') : field = field' ∧ rest = rest' := by
  have hclean : ∀ {field tag : List α}, sep ∉ field → sep ∉ tag → sep ∉ field ++ stop :: tag := by
    intro field tag hfield htag
    rw [mem_append, mem_cons, not_or, not_or]
    exact ⟨hfield, hne, htag⟩
  rcases hrest with rfl | ⟨tag, more, rfl, hsep, hstop⟩
  · rcases hrest' with rfl | ⟨tag', more', rfl, hsep', hstop'⟩
    · exact ⟨append_cancel_right h, rfl⟩
    · have hmem : sep ∈ field ++ [stop] := by
        rw [h]
        exact mem_append_right _ (.tail _ (mem_append_right _
          mem_cons_self))
      exact absurd hmem (hclean hfield not_mem_nil)
  · rcases hrest' with rfl | ⟨tag', more', rfl, hsep', hstop'⟩
    · have hmem : sep ∈ field' ++ [stop] := by
        rw [← h]
        exact mem_append_right _ (.tail _ (mem_append_right _
          mem_cons_self))
      exact absurd hmem (hclean hfield' not_mem_nil)
    · rw [← cons_append, ← cons_append, ← append_assoc, ← append_assoc] at h
      obtain ⟨hleft, rfl⟩ := append_cons_inj_first (hclean hfield hsep) (hclean hfield' hsep') h
      obtain ⟨rfl, rfl⟩ := append_cons_inj_last hstop hstop' hleft
      exact ⟨rfl, rfl⟩

theorem fieldsText_cons (sep : α) (field : List α) (fields : List (List α)) :
    fieldsText sep (field :: fields) = sep :: (field ++ fieldsText sep fields) := rfl

theorem fields_inj (hne : sep ≠ stop) (hfields : ∀ field ∈ fields, sep ∉ field)
    (hfields' : ∀ field ∈ fields', sep ∉ field) (hpos : 0 < fields.length)
    (hlength : fields.length = fields'.length) (hrest : Follows sep stop rest)
    (hrest' : Follows sep stop rest')
    (h : fieldsText sep fields ++ stop :: rest = fieldsText sep fields' ++ stop :: rest') :
    fields = fields' ∧ rest = rest' := by
  induction fields generalizing fields' with
  | nil => exact absurd hpos (Nat.not_lt_zero _)
  | cons field fields ih =>
    obtain ⟨field', fields', rfl⟩ := exists_cons_of_length_pos (hlength ▸ hpos)
    rw [forall_mem_cons] at hfields hfields'
    rw [fieldsText_cons, fieldsText_cons, cons_append, cons_append, append_assoc,
      append_assoc, cons_inj_right] at h
    have hlength' : fields.length = fields'.length := Nat.succ.inj hlength
    cases fields with
    | nil =>
      rw [eq_nil_of_length_eq_zero hlength'.symm] at h ⊢
      obtain ⟨rfl, rfl⟩ := last_field_inj hne hfields.1 hfields'.1 hrest hrest' h
      exact ⟨rfl, rfl⟩
    | cons next fields =>
      -- the field ends at the separator of the next one
      obtain ⟨next', fields', rfl⟩ := exists_cons_of_length_pos
        (hlength' ▸ Nat.succ_pos _ : 0 < fields'.length)
      obtain ⟨rfl, hmore⟩ := append_cons_inj_first hfields.1 hfields'.1 h
      obtain ⟨heq, rfl⟩ := ih hfields.2 hfields'.2 (Nat.succ_pos _) hlength'
        (congrArg (List.cons sep) hmore)
      exact ⟨by rw [heq], rfl⟩

theorem render_cons (record : Record α) (records : List (Record α)) :
    render sep stop (record :: records) =
      record.tag ++ (fieldsText sep record.fields ++ stop :: render sep stop records) := by
  unfold render Record.text
  rw [flatMap_cons, append_assoc, append_assoc, singleton_append]

theorem Record.Clean.fieldsText_eq (h : record.Clean sep stop arity) :
    ∃ more, fieldsText sep record.fields = sep :: more := by
  obtain ⟨field, fields, hfields⟩ := exists_cons_of_length_pos h.arity_pos
  rw [hfields]
  exact ⟨_, rfl⟩

theorem follows_render (h : ∀ record ∈ records, Record.Clean sep stop arity record) :
    Follows sep stop (render sep stop records) := by
  cases records with
  | nil => exact .inl rfl
  | cons record records =>
    have hclean := h record mem_cons_self
    obtain ⟨more, hmore⟩ := hclean.fieldsText_eq
    rw [render_cons, hmore]
    exact .inr ⟨_, _, rfl, hclean.sep_tag, hclean.stop_tag⟩

theorem stop_mem_render_cons (record : Record α) (records : List (Record α)) :
    stop ∈ render sep stop (record :: records) := by
  rw [render_cons]
  exact mem_append_right _ (mem_append_right _ mem_cons_self)

theorem record_inj (hne : sep ≠ stop) (hclean : record.Clean sep stop arity)
    (hclean' : record'.Clean sep stop arity) (hrest : Follows sep stop rest)
    (hrest' : Follows sep stop rest')
    (h : record.tag ++ (fieldsText sep record.fields ++ stop :: rest) =
      record'.tag ++ (fieldsText sep record'.fields ++ stop :: rest')) :
    record = record' ∧ rest = rest' := by
  obtain ⟨more, hmore⟩ := hclean.fieldsText_eq
  obtain ⟨more', hmore'⟩ := hclean'.fieldsText_eq
  rw [hmore, hmore'] at h
  obtain ⟨htag, htail⟩ := append_cons_inj_first hclean.sep_tag hclean'.sep_tag h
  have hlength : record.fields.length = record'.fields.length := by
    rw [hclean.arity_eq, hclean'.arity_eq, htag]
  have htext : fieldsText sep record.fields ++ stop :: rest =
      fieldsText sep record'.fields ++ stop :: rest' := by
    rw [hmore, hmore']
    exact congrArg (List.cons sep) htail
  obtain ⟨hfields, rfl⟩ := fields_inj hne hclean.sep_fields hclean'.sep_fields hclean.arity_pos
    hlength hrest hrest' htext
  cases record
  cases record'
  cases htag
  cases hfields
  exact ⟨rfl, rfl⟩

theorem render_injective (hne : sep ≠ stop)
    (hclean : ∀ record ∈ records, Record.Clean sep stop arity record)
    (hclean' : ∀ record ∈ records', Record.Clean sep stop arity record)
    (h : render sep stop records = render sep stop records') : records = records' := by
  induction records generalizing records' with
  | nil =>
    cases records' with
    | nil => rfl
    | cons record records' =>
      have hmem : stop ∈ render sep stop [] := h ▸ stop_mem_render_cons record records'
      cases hmem
  | cons record records ih =>
    cases records' with
    | nil =>
      have hmem : stop ∈ render sep stop [] := h ▸ stop_mem_render_cons record records
      cases hmem
    | cons record' records' =>
      rw [forall_mem_cons] at hclean hclean'
      rw [render_cons, render_cons] at h
      obtain ⟨rfl, hrest⟩ := record_inj hne hclean.1 hclean'.1 (follows_render hclean.2)
        (follows_render hclean'.2) h
      rw [ih hclean.2 hclean'.2 hrest]

/-! ## Decimal fields -/

theorem toList_toString_of_nonneg {n : Int} (h : 0 ≤ n) :
    (toString n).toList = Nat.toDigits 10 n.natAbs := by
  obtain ⟨m, rfl⟩ := Int.eq_ofNat_of_zero_le h
  exact Nat.toList_repr

theorem toList_toString_of_neg {n : Int} (h : n < 0) :
    (toString n).toList = '-' :: Nat.toDigits 10 n.natAbs := by
  obtain ⟨m, rfl⟩ := Int.eq_negSucc_of_lt_zero h
  show ("-" ++ Nat.repr (m + 1)).toList = _
  rw [String.toList_append, Nat.toList_repr]
  rfl

theorem isDigit_or_minus_of_mem_toString {n : Int} {c : Char} (h : c ∈ (toString n).toList) :
    c.isDigit = true ∨ c = '-' := by
  by_cases hn : 0 ≤ n
  · rw [toList_toString_of_nonneg hn] at h
    exact .inl (Nat.isDigit_of_mem_toDigits (by decide) (by decide) h)
  · rw [toList_toString_of_neg (Int.not_le.mp hn)] at h
    rcases List.mem_cons.mp h with rfl | h
    · exact .inr rfl
    · exact .inl (Nat.isDigit_of_mem_toDigits (by decide) (by decide) h)

theorem not_mem_toString {c : Char} (hdigit : c.isDigit = false) (hminus : c ≠ '-') (n : Int) :
    c ∉ (toString n).toList := by
  intro h
  rcases isDigit_or_minus_of_mem_toString h with h | h
  · rw [hdigit] at h
    cases h
  · exact hminus h

theorem minus_not_mem_toDigits (n : Nat) : '-' ∉ Nat.toDigits 10 n := by
  intro h
  exact absurd (Nat.isDigit_of_mem_toDigits (by decide) (by decide) h) (by decide)

end CexHertz.Delimited

import CexHertz.Service.PositionTransactions

/-!
# Position transactions that keep apart

If no transaction queries a user and symbol that another open one has queried, every transaction
works on rows nobody else changes, and the committed volumes are the sums of the committed legs. The
volume of a row is a parameter: the column, or what a reader is meant to take for it. `good` are the
rows whose column says it.
-/

namespace CexHertz

open List PositionRow PositionTx Tables Run

open Rows (view cell)

/-- The query is of a user and symbol that no other open transaction has queried. -/
def Tables.Isolated (s : Tables) : TablesAction → Prop
  | .first k _ => ∀ tx ∈ s.txs[k]?, ∀ leg ∈ tx.todo.head?, ∀ other ∈ s.others k,
      leg.key ∉ other.touched
  | _ => True

def Tables.Finds (good : PositionRow → Prop) (s : Tables) : TablesAction → Prop
  | .first k _ => ∀ tx ∈ s.txs[k]?, ∀ leg ∈ tx.todo.head?, ∀ id < s.nextID, ∀ r ∈ s.rows id,
      r.key = leg.key → good r
  | _ => True

instance (s : Tables) : (a : TablesAction) → Decidable (s.Isolated a)
  | .first _ _ => inferInstanceAs (Decidable (∀ _ ∈ _, ∀ _ ∈ _, ∀ _ ∈ _, _))
  | .begin _ _ | .insertOutbox _ _ | .write _ _ | .commit _ _ | .rollback _ _ => isTrue trivial

instance (good : PositionRow → Prop) [DecidablePred good] (s : Tables) :
    (a : TablesAction) → Decidable (s.Finds good a)
  | .first _ _ => inferInstanceAs (Decidable (∀ _ ∈ _, ∀ _ ∈ _, ∀ _ < _, ∀ _ ∈ _, _ → _))
  | .begin _ _ | .insertOutbox _ _ | .write _ _ | .commit _ _ | .rollback _ _ => isTrue trivial

section

variable (pp : PositionProcessor) (val : PositionRow → Int64) (good : PositionRow → Prop)

def Tables.net (s : Tables) (k : String × String) : Int :=
  (s.txs.map fun tx =>
    if tx.phase = .committed then PositionLeg.net pp k tx.work.legs else 0).sum

def Tables.volume (s : Tables) (k : String × String) : Int64 :=
  cell key val 0 k s.rows s.nextID

def PositionLeg.Covered (v : Int64) : PositionLeg → Prop
  | buy _ _ _ _ => True
  | sell userID symbol sellQtyStr => 0 ≤ v.toInt + (sell userID symbol sellQtyStr).amount pp

structure Selected (seen : Nat → Option PositionRow) (n : Nat) (leg : PositionLeg)
    (target : Option Nat) (new : Position) : Prop where
  key : new.key = leg.key
  volume : new.volumeBigint =
    cell PositionRow.key val 0 leg.key seen n + Int64.ofInt (leg.amount pp)
  found : ∀ id, target = some id → ∃ old, seen id = some old ∧ old.key = leg.key
  missing : target = none → ∀ id r, seen id = some r → r.key ≠ leg.key
  covered : leg.Covered pp (cell PositionRow.key val 0 leg.key seen n)

structure TxOk (rows : Nat → Option PositionRow) (n : Nat) (tx : PositionTx) : Prop where
  owns : Rows.Owns key (· ∈ tx.touched) rows tx.writes
  below : ∀ w ∈ tx.writes, w.1 < n
  good_rows : ∀ id r, rows id = some r → r.key ∈ tx.touched → good r
  good_writes : ∀ w ∈ tx.writes, good w.2
  volume : ∀ k, cell key val 0 k (view rows tx.writes) n =
    cell key val 0 k rows n + Int64.ofInt (PositionLeg.net pp k tx.done)
  covered : ∀ (i : Nat) (leg : PositionLeg), tx.done[i]? = some leg →
    leg.Covered pp (cell key val 0 leg.key rows n +
      Int64.ofInt (PositionLeg.net pp leg.key (tx.done.take i)))
  selected : ∀ target new leg rest, tx.phase = .write target new → tx.todo = leg :: rest →
    Selected pp val (view rows tx.writes) n leg target new

structure PositionTx.Apart (tx tx' : PositionTx) : Prop where
  touched : ∀ k ∈ tx.touched, k ∉ tx'.touched
  places : ∀ id ∈ tx.places, id ∉ tx'.places

structure TablesOk (start : String × String → Int64) (s : Tables) : Prop where
  below : Rows.Below s.rows s.nextID
  unique : Rows.Unique key s.rows
  volume : ∀ k, s.volume val k = start k + Int64.ofInt (s.net pp k)
  legs : ∀ tx ∈ s.txs, tx.done ++ tx.todo = tx.work.legs
  txs : ∀ (j : Nat) (tx : PositionTx), s.txs[j]? = some tx → tx.phase.isOpen = true →
    TxOk pp val good s.rows s.nextID tx
  apart : ∀ (i j : Nat) (tx tx' : PositionTx), i ≠ j → s.txs[i]? = some tx →
    s.txs[j]? = some tx' → tx.phase.isOpen = true → tx'.phase.isOpen = true → tx.Apart tx'

end

theorem PositionTx.Apart.symm {tx tx' : PositionTx} (h : tx.Apart tx') : tx'.Apart tx where
  touched := fun k hk hk' => h.touched k hk' hk
  places := fun id hid hid' => h.places id hid' hid

/-! ## Legs and what they touch -/

section

variable {tx : PositionTx} {leg : PositionLeg} {rest : List PositionLeg} {k : String × String}

theorem PositionTx.done_subset_touched (h : k ∈ tx.done.map PositionLeg.key) : k ∈ tx.touched := by
  unfold touched
  split
  · exact .tail _ h
  · exact h

theorem PositionTx.mem_touched_write {target : Option Nat} {new : Position}
    (hphase : tx.phase = .write target new) (htodo : tx.todo = leg :: rest) :
    k ∈ tx.touched ↔ k = leg.key ∨ k ∈ tx.done.map PositionLeg.key := by
  unfold touched
  rw [hphase, htodo]
  exact mem_cons

theorem PositionTx.touched_of_not_write (h : ∀ target new, tx.phase ≠ .write target new) :
    tx.touched = tx.done.map PositionLeg.key := by
  unfold touched
  split
  next target new _ _ hphase _ => exact absurd hphase (h target new)
  next => rfl

theorem PositionTx.mem_touched_wrote {id : Nat} {new : Position} :
    k ∈ (tx.wrote leg rest id new).touched ↔ k = leg.key ∨ k ∈ tx.done.map PositionLeg.key := by
  rw [touched_of_not_write fun _ _ h => by cases h]
  simp only [wrote, map_append, map_cons, map_nil, mem_append, mem_singleton]
  exact or_comm

theorem PositionLeg.net_of_not_mem {pp : PositionProcessor} {legs : List PositionLeg}
    (h : k ∉ legs.map PositionLeg.key) : net pp k legs = 0 := by
  induction legs with
  | nil => rfl
  | cons leg legs ih =>
    rw [map_cons, mem_cons, not_or] at h
    unfold net at ih ⊢
    rw [map_cons, sum_cons, ih h.2, if_neg (Ne.symm h.1), Int.add_zero]

theorem PositionLeg.net_concat (pp : PositionProcessor) (k : String × String)
    (legs : List PositionLeg) (leg : PositionLeg) :
    net pp k (legs ++ [leg]) = net pp k legs + if leg.key = k then leg.amount pp else 0 := by
  unfold net
  rw [map_append, sum_append, map_singleton, sum_singleton]

theorem PositionLeg.covered_of_compute {pp : PositionProcessor} {id : Nat} {pos : Position}
    {written : Option Nat × Position} (h : leg.compute pp (.ok (id, pos)) = .ok written) :
    leg.Covered pp pos.volumeBigint := by
  cases leg with
  | buy userID symbol buyQtyStr buyPriceStr => trivial
  | sell userID symbol sellQtyStr =>
    cases hq : Model.parseQuantity pp.conv sellQtyStr with
    | error msg =>
      dsimp only [compute] at h
      rw [hq] at h
      cases h
    | ok q =>
      have hle := (compute_sell hq).mp ⟨written, h⟩
      show 0 ≤ pos.volumeBigint.toInt + (sell userID symbol sellQtyStr).amount pp
      rw [amount_sell hq]
      omega

end

/-! ## One transaction -/

section

variable {pp : PositionProcessor} {val : PositionRow → Int64} {good : PositionRow → Prop}
  {rows rows' : Nat → Option PositionRow} {n n' : Nat} {tx : PositionTx}

theorem TxOk.mono (h : TxOk pp val good rows n tx) (hunique : Rows.Unique PositionRow.key rows)
    (hbelow : Rows.Below rows n) (hle : n ≤ n') : TxOk pp val good rows n' tx := by
  have hbelow' := hbelow.view h.below
  have hcell : ∀ k, cell key val 0 k rows n' = cell key val 0 k rows n :=
    fun k => Rows.Agree.cell (fun _ _ _ => Iff.rfl) hunique hbelow hunique (hbelow.mono hle) val 0
  have hview : ∀ k, cell key val 0 k (view rows tx.writes) n' =
      cell key val 0 k (view rows tx.writes) n :=
    fun k => Rows.Agree.cell (fun _ _ _ => Iff.rfl) h.owns.unique hbelow' h.owns.unique
      (hbelow'.mono hle) val 0
  refine ⟨h.owns, fun w hw => Nat.lt_of_lt_of_le (h.below w hw) hle, h.good_rows, h.good_writes,
    fun k => ?_, fun i leg hi => ?_, fun target new leg rest hphase htodo => ?_⟩
  · rw [hview, hcell]
    exact h.volume k
  · rw [hcell]
    exact h.covered i leg hi
  · have hsel := h.selected target new leg rest hphase htodo
    exact ⟨hsel.key, by rw [hview]; exact hsel.volume, hsel.found, hsel.missing,
      by rw [hview]; exact hsel.covered⟩

theorem TxOk.rebase (h : TxOk pp val good rows n tx) (hunique : Rows.Unique PositionRow.key rows)
    (hbelow : Rows.Below rows n) (hunique' : Rows.Unique key rows')
    (hbelow' : Rows.Below rows' n)
    (hagree : ∀ k ∈ tx.touched, Rows.Agree key k rows rows')
    (hfree : ∀ w ∈ tx.writes, rows w.1 = none → rows' w.1 = none) :
    TxOk pp val good rows' n tx := by
  obtain ⟨howns, hview⟩ := h.owns.rebase hunique' hagree hfree
  have hseen : ∀ k ∈ tx.touched, cell key val 0 k (view rows' tx.writes) n =
      cell key val 0 k (view rows tx.writes) n := fun k hk =>
    (hview k hk).cell h.owns.unique (hbelow.view h.below) howns.unique (hbelow'.view h.below) val 0
  constructor
  · exact howns
  · exact h.below
  · exact fun id r hr hk => h.good_rows id r ((hagree _ hk id r rfl).mpr hr) hk
  · exact h.good_writes
  · intro k
    by_cases hk : k ∈ tx.touched
    · rw [hseen k hk, (hagree k hk).cell hunique hbelow hunique' hbelow']
      exact h.volume k
    · have hnet : PositionLeg.net pp k tx.done = 0 :=
        PositionLeg.net_of_not_mem fun hmem => hk (done_subset_touched hmem)
      rw [hnet, (howns.agree hk).cell hunique' hbelow' howns.unique (hbelow'.view h.below)]
      exact (Int64.add_zero _).symm
  · intro i leg hi
    have hmem : leg.key ∈ tx.done.map PositionLeg.key :=
      mem_map_of_mem (mem_of_getElem? hi)
    rw [(hagree _ (done_subset_touched hmem)).cell hunique hbelow hunique' hbelow']
    exact h.covered i leg hi
  · intro target new leg rest hphase htodo
    have hsel := h.selected target new leg rest hphase htodo
    have hk : leg.key ∈ tx.touched := (mem_touched_write hphase htodo).mpr (.inl rfl)
    constructor
    · exact hsel.key
    · rw [hseen _ hk]
      exact hsel.volume
    · intro id hid
      obtain ⟨old, hold, hkey⟩ := hsel.found id hid
      exact ⟨old, (hview _ hk id old hkey).mp hold, hkey⟩
    · intro hnone id r hr hkey
      exact hsel.missing hnone id r ((hview _ hk id r hkey).mpr hr) hkey
    · rw [hseen _ hk]
      exact hsel.covered

theorem TxOk.wrote (h : TxOk pp val good rows n tx) (hbelow : Rows.Below rows n)
    {target : Option Nat} {new : Position} {leg : PositionLeg} {rest : List PositionLeg} {id : Nat}
    (hphase : tx.phase = .write target new) (htodo : tx.todo = leg :: rest)
    (hval : ∀ p : Position, val p.row = p.volumeBigint) (hgood : ∀ p : Position, good p.row)
    (hfits : Rows.Fits key (view rows tx.writes) id new.row) (hid : id < n) :
    TxOk pp val good rows n (tx.wrote leg rest id new) := by
  have hsel := h.selected target new leg rest hphase htodo
  have htouched : ∀ k, k ∈ (tx.wrote leg rest id new).touched ↔ k ∈ tx.touched := fun k =>
    mem_touched_wrote.trans (mem_touched_write hphase htodo).symm
  have hkey : new.row.key = leg.key := hsel.key
  have hnew : new.row.key ∈ (tx.wrote leg rest id new).touched := by
    rw [hkey, htouched]
    exact (mem_touched_write hphase htodo).mpr (.inl rfl)
  have howns : Rows.Owns key (· ∈ (tx.wrote leg rest id new).touched) rows
      ((id, new.row) :: tx.writes) :=
    (h.owns.mono fun k hk => (htouched k).mpr hk).write hfits hnew
  have hwrites : ∀ w ∈ (id, new.row) :: tx.writes, w.1 < n :=
    forall_mem_cons.mpr ⟨hid, h.below⟩
  constructor
  · exact howns
  · exact hwrites
  · exact fun i r hr hk => h.good_rows i r hr ((htouched _).mp hk)
  · exact forall_mem_cons.mpr ⟨hgood new, h.good_writes⟩
  · intro k
    show cell key val 0 k (view rows ((id, new.row) :: tx.writes)) n =
      cell key val 0 k rows n + Int64.ofInt (PositionLeg.net pp k (tx.done ++ [leg]))
    rw [PositionLeg.net_concat, Int64.ofInt_add, ← Int64.add_assoc, ← h.volume k]
    by_cases hk : leg.key = k
    · subst hk
      have hrow : view rows ((id, new.row) :: tx.writes) id = some new.row :=
        Function.update_self _ _ _
      rw [if_pos rfl, Rows.cell_of_row howns.unique (hbelow.view hwrites) hrow hkey, hval]
      exact hsel.volume
    · rw [if_neg hk]
      have hagree : Rows.Agree key k (view rows tx.writes)
          (view rows ((id, new.row) :: tx.writes)) :=
        hfits.agree fun heq => hk (hkey.symm.trans heq.symm)
      rw [hagree.cell h.owns.unique (hbelow.view h.below) howns.unique (hbelow.view hwrites)]
      exact (Int64.add_zero _).symm
  · intro i leg' hi
    rcases getElem?_concat_cases hi with hi | ⟨rfl, rfl⟩
    · have hlt : i < tx.done.length := (List.getElem?_eq_some_iff.mp hi).1
      show leg'.Covered pp (_ + Int64.ofInt (PositionLeg.net pp _ ((tx.done ++ [leg]).take i)))
      rw [take_append_of_le_length (Nat.le_of_lt hlt)]
      exact h.covered i leg' hi
    · show leg'.Covered pp
        (_ + Int64.ofInt (PositionLeg.net pp _ ((tx.done ++ [leg']).take tx.done.length)))
      rw [take_left, ← h.volume]
      exact hsel.covered
  · intro _ _ _ _ hselect
    cases hselect

theorem TxOk.first (h : TxOk pp val good rows n tx) {target : Option Nat} {new : Position}
    {leg : PositionLeg} {rest : List PositionLeg} (hphase : tx.phase = .select)
    (htodo : tx.todo = leg :: rest) (hgood : ∀ id r, rows id = some r → r.key = leg.key → good r)
    (hselected : Selected pp val (view rows tx.writes) n leg target new) :
    TxOk pp val good rows n { tx with phase := .write target new } := by
  have htouched : ∀ k, k ∈ ({ tx with phase := .write target new } : PositionTx).touched ↔
      k = leg.key ∨ k ∈ tx.touched := by
    intro k
    have hselect : tx.touched = tx.done.map PositionLeg.key :=
      touched_of_not_write fun _ _ hw => by rw [hphase] at hw; cases hw
    have hwrite : ({ tx with phase := .write target new } : PositionTx).phase =
        .write target new := rfl
    rw [mem_touched_write hwrite htodo, hselect]
  refine ⟨h.owns.mono fun k hk => (htouched k).mpr (.inr hk), h.below, ?_, h.good_writes, h.volume,
    h.covered, ?_⟩
  · intro id r hr hk
    rcases (htouched _).mp hk with hkey | hk
    · exact hgood id r hr hkey
    · exact h.good_rows id r hr hk
  · intro target' new' leg' rest' hphase' htodo'
    have hcons : leg :: rest = leg' :: rest' := htodo.symm.trans htodo'
    cases hphase'
    cases hcons
    exact hselected

end

/-! ## All transactions -/

section

variable {pp : PositionProcessor} {val : PositionRow → Int64} {good : PositionRow → Prop}
  {start : String × String → Int64} {held : List Nat} {s s' : Tables} {a : TablesAction}
variable {tx : PositionTx} {k : Nat}

theorem Tables.selected_of_query (htx : TxOk pp val good s.rows s.nextID tx)
    (hbelow : Rows.Below s.rows s.nextID) {fault : Option String} {leg : PositionLeg}
    {target : Option Nat} {new : Position} (hval : ∀ r, good r → val r = r.scan.volumeBigint)
    (hgood : ∀ id r, s.rows id = some r → r.key = leg.key → good r)
    (h : leg.compute pp (s.query tx fault leg.key) = .ok (target, new)) :
    Selected pp val (view s.rows tx.writes) s.nextID leg target new := by
  have hview := hbelow.view htx.below
  rcases PositionLeg.compute_eq_ok h with
    ⟨id, pos, hquery, rfl, hkey, hvolume⟩ | ⟨hquery, rfl, hkey, hvolume⟩
  · have hcovered : leg.Covered pp pos.volumeBigint := by
      rw [hquery] at h
      exact PositionLeg.covered_of_compute h
    unfold query at hquery
    split at hquery
    · cases hquery
    · split at hquery
      · cases hquery
      next r hfirst =>
        cases hquery
        obtain ⟨hrow, hrkey⟩ := Rows.first_eq_some hfirst
        have hr : good r := by
          rcases Rows.view_cases hrow with hmem | ⟨-, hcommitted⟩
          · exact htx.good_writes _ hmem
          · exact hgood _ r hcommitted hrkey
        constructor
        · exact hkey.trans hrkey
        · rwa [Rows.cell_of_row htx.owns.unique hview hrow hrkey, hval r hr]
        · intro id' hid
          cases hid
          exact ⟨r, hrow, hrkey⟩
        · intro hnone
          cases hnone
        · rwa [Rows.cell_of_row htx.owns.unique hview hrow hrkey, hval r hr]
  · have hcovered : leg.Covered pp 0 := by
      rw [hquery] at h
      cases leg with
      | buy userID symbol buyQtyStr buyPriceStr => trivial
      | sell userID symbol sellQtyStr => cases h
    unfold query at hquery
    split at hquery
    · cases hquery
    · split at hquery
      next hfirst =>
        have hmissing : ∀ id r, view s.rows tx.writes id = some r → r.key ≠ leg.key :=
          fun id r hr => Rows.first_eq_none hfirst (hview id r hr) hr
        constructor
        · exact hkey
        · rwa [Rows.cell_of_none hmissing, Int64.zero_add]
        · intro id hid
          cases hid
        · exact fun _ => hmissing
        · rwa [Rows.cell_of_none hmissing]
      · cases hquery

theorem Tables.net_set (hk : s.txs[k]? = some tx) (tx' : PositionTx)
    (rows : Nat → Option PositionRow) (n : Nat) (outbox : List String) (key : String × String) :
    (mk rows n outbox (s.txs.set k tx')).net pp key = s.net pp key -
      (if tx.phase = .committed then PositionLeg.net pp key tx.work.legs else 0) +
      (if tx'.phase = .committed then PositionLeg.net pp key tx'.work.legs else 0) := by
  obtain ⟨pre, post, htxs, hset⟩ := set_split hk
  unfold net
  rw [htxs] at hset ⊢
  rw [hset]
  simp only [map_append, map_cons, sum_append, sum_cons]
  omega

theorem Tables.net_begin (pp : PositionProcessor) (s : Tables) (process : Nat) (work : TxWork)
    (k : String × String) :
    ({ s with txs := s.txs ++ [work.begin process] } : Tables).net pp k = s.net pp k := by
  have hphase : (work.begin process).phase ≠ .committed := by
    cases work <;> exact fun h => by cases h
  unfold net
  rw [map_append, sum_append, map_singleton, sum_singleton, if_neg hphase, Int.add_zero]

theorem Tables.not_committed (h : tx.phase.isOpen = true) : tx.phase ≠ .committed := by
  intro hphase
  rw [hphase] at h
  cases h

theorem Tables.net_setTx {tx' : PositionTx} (hk : s.txs[k]? = some tx)
    (hopen : tx.phase.isOpen = true) (hphase : tx'.phase ≠ .committed) (n : Nat)
    (key : String × String) : ({ s with nextID := n }.setTx k tx').net pp key = s.net pp key := by
  show (mk s.rows n s.outbox (s.txs.set k tx')).net pp key = s.net pp key
  rw [net_set hk, if_neg (not_committed hopen), if_neg hphase, Int.sub_zero, Int.add_zero]

section

variable (hok : TablesOk pp val good start s)

include hok

theorem TablesOk.setTx {n : Nat} {tx' : PositionTx}
    (hk : s.txs[k]? = some tx) (hopen : tx.phase.isOpen = true) (hle : s.nextID ≤ n)
    (hphase : tx'.phase ≠ .committed) (hlegs : tx'.done ++ tx'.todo = tx'.work.legs)
    (htx : tx'.phase.isOpen = true → TxOk pp val good s.rows n tx')
    (hapart : tx'.phase.isOpen = true → ∀ other ∈ s.others k, tx'.Apart other) :
    TablesOk pp val good start ({ s with nextID := n }.setTx k tx') where
  below := hok.below.mono hle
  unique := hok.unique
  volume := by
    intro key
    have hcell : cell PositionRow.key val 0 key s.rows n = s.volume val key :=
      Rows.Agree.cell (fun _ _ _ => Iff.rfl) hok.unique hok.below hok.unique
        (hok.below.mono hle) val 0
    rw [net_setTx hk hopen hphase]
    exact hcell.trans (hok.volume key)
  legs := by
    intro t ht
    rcases mem_or_eq_of_mem_set ht with ht | rfl
    · exact hok.legs t ht
    · exact hlegs
  txs := by
    intro j t hj ht
    rcases getElem?_set_cases hj with ⟨-, rfl⟩ | ⟨-, hj⟩
    · exact htx ht
    · exact (hok.txs j t hj ht).mono hok.unique hok.below hle
  apart := by
    intro i j t t' hne hi hj ht ht'
    rcases getElem?_set_cases hi with ⟨rfl, rfl⟩ | ⟨hik, hi'⟩
    · rcases getElem?_set_cases hj with ⟨rfl, -⟩ | ⟨hjk, hj'⟩
      · exact absurd rfl hne
      · exact hapart ht t' (mem_others.mpr ⟨j, hjk, hj', ht'⟩)
    · rcases getElem?_set_cases hj with ⟨rfl, rfl⟩ | ⟨-, hj'⟩
      · exact (hapart ht' t (mem_others.mpr ⟨i, hik, hi', ht⟩)).symm
      · exact hok.apart i j t t' hne hi' hj' ht ht'

theorem TablesOk.commit (hk : s.txs[k]? = some tx)
    (hphase : tx.phase = .select) (htodo : tx.todo = []) (outbox : List String) :
    TablesOk pp val good start
      { s with
        rows := view s.rows tx.writes
        outbox := outbox
        txs := s.txs.set k { tx with phase := .committed } } := by
  have hopen : tx.phase.isOpen = true := by rw [hphase]; rfl
  have htx := hok.txs k tx hk hopen
  have hlegs := hok.legs tx (mem_of_getElem? hk)
  have hbelow := hok.below.view htx.below
  constructor
  · exact hbelow
  · exact htx.owns.unique
  · intro key
    rw [net_set hk, if_neg (not_committed hopen), if_pos rfl, Int.sub_zero,
      Int64.ofInt_add, ← Int64.add_assoc, ← hok.volume key]
    rw [htodo, append_nil] at hlegs
    rw [← hlegs]
    exact htx.volume key
  · intro t ht
    rcases mem_or_eq_of_mem_set ht with ht | rfl
    · exact hok.legs t ht
    · exact hlegs
  · intro j t hj ht
    rcases getElem?_set_cases hj with ⟨-, rfl⟩ | ⟨hne, hj'⟩
    · cases ht
    · have hapart := hok.apart j k t tx hne hj' hk ht hopen
      apply (hok.txs j t hj' ht).rebase hok.unique hok.below htx.owns.unique hbelow
      · exact fun key hkey => htx.owns.agree (hapart.touched key hkey)
      · intro w hw hnone
        rw [Rows.view_of_not_mem (hapart.places w.1 (mem_map_of_mem hw)), hnone]
  · intro i j t t' hne hi hj ht ht'
    rcases getElem?_set_cases hi with ⟨-, rfl⟩ | ⟨-, hi'⟩
    · cases ht
    · rcases getElem?_set_cases hj with ⟨-, rfl⟩ | ⟨-, hj'⟩
      · cases ht'
      · exact hok.apart i j t t' hne hi' hj' ht ht'

/-- Rows are committed by another session: with their keys and volumes kept, and not where an open
transaction works, nothing changes for the tables. -/
theorem TablesOk.outside {rows : Nat → Option PositionRow}
    (hbelow : Rows.Below rows s.nextID) (hunique : Rows.Unique key rows)
    (hvolume : ∀ k, cell key val 0 k rows s.nextID = s.volume val k)
    (hagree : ∀ tx ∈ s.txs, tx.phase.isOpen = true → ∀ k ∈ tx.touched,
      Rows.Agree key k s.rows rows) (hfree : ∀ id, s.rows id = none → rows id = none) :
    TablesOk pp val good start { s with rows := rows } where
  below := hbelow
  unique := hunique
  volume := fun k => (hvolume k).trans (hok.volume k)
  legs := hok.legs
  txs := fun j tx hj hopen =>
    (hok.txs j tx hj hopen).rebase hok.unique hok.below hunique hbelow
      (hagree tx (mem_of_getElem? hj) hopen) fun w _ => hfree w.1
  apart := hok.apart

theorem TablesOk.begin (process : Nat) (work : TxWork) :
    TablesOk pp val good start { s with txs := s.txs ++ [work.begin process] } := by
  have hnew : ∀ k, k ∉ (work.begin process).touched := by
    intro k hk
    rw [touched_of_not_write fun _ _ h => by cases work <;> cases h] at hk
    cases hk
  constructor
  · exact hok.below
  · exact hok.unique
  · intro k
    rw [net_begin]
    exact hok.volume k
  · exact forall_mem_concat hok.legs rfl
  · intro j tx hj hopen
    rcases getElem?_concat_cases hj with hj | ⟨-, rfl⟩
    · exact hok.txs j tx hj hopen
    · constructor
      · exact .nil hok.unique
      · exact nofun
      · exact fun _ _ _ hk => absurd hk (hnew _)
      · exact nofun
      · exact fun k => (Int64.add_zero _).symm
      · exact fun i leg hi => absurd (mem_of_getElem? hi) not_mem_nil
      · intro _ _ _ _ hphase
        cases work <;> cases hphase
  · intro i j tx tx' hne hi hj hopen hopen'
    have hapart : ∀ t : PositionTx, (work.begin process).Apart t := fun t =>
      ⟨fun k hk => absurd hk (hnew k), nofun⟩
    rcases getElem?_concat_cases hi with hi' | ⟨hi', rfl⟩
    · rcases getElem?_concat_cases hj with hj' | ⟨-, rfl⟩
      · exact hok.apart i j tx tx' hne hi' hj' hopen hopen'
      · exact (hapart tx).symm
    · exact hapart tx'

theorem TablesOk.apart_others (hk : s.txs[k]? = some tx)
    (hopen : tx.phase.isOpen = true) :
    ∀ other ∈ s.others k, tx.Apart other := by
  intro other hother
  obtain ⟨j, hne, hj, hopen'⟩ := mem_others.mp hother
  exact hok.apart k j tx other hne.symm hk hj hopen hopen'

theorem TablesOk.wrote (hval : ∀ p : Position, val p.row = p.volumeBigint)
    (hgood : ∀ p : Position, good p.row) {n id : Nat} {target : Option Nat} {new : Position}
    {leg : PositionLeg} {rest : List PositionLeg} (hk : s.txs[k]? = some tx)
    (hphase : tx.phase = .write target new) (htodo : tx.todo = leg :: rest) (hle : s.nextID ≤ n)
    (hid : id < n) (hfits : Rows.Fits key (view s.rows tx.writes) id new.row)
    (hothers : ∀ other ∈ s.others k, id ∉ other.places) :
    TablesOk pp val good start ({ s with nextID := n }.setTx k (tx.wrote leg rest id new)) := by
  have hopen : tx.phase.isOpen = true := by rw [hphase]; rfl
  have hlegs := hok.legs tx (mem_of_getElem? hk)
  have htx := (hok.txs k tx hk hopen).mono hok.unique hok.below hle
  apply hok.setTx hk hopen hle (fun h => by cases h)
  · show (tx.done ++ [leg]) ++ rest = tx.work.legs
    rwa [append_assoc, singleton_append, ← htodo]
  · exact fun _ => htx.wrote (hok.below.mono hle) hphase htodo hval hgood hfits hid
  · intro _ other hother
    have hapart := hok.apart_others hk hopen other hother
    constructor
    · intro key hkey
      apply hapart.touched key
      exact (mem_touched_write hphase htodo).mpr (mem_touched_wrote.mp hkey)
    · exact forall_mem_cons.mpr ⟨hothers other hother, hapart.places⟩

end

theorem TablesOk.step (hval : ∀ r, good r → val r = r.scan.volumeBigint)
    (hgood : ∀ p : Position, good p.row) (hok : TablesOk pp val good start s)
    (hisolated : s.Isolated a) (hfinds : s.Finds good a) (h : s.step pp held a = some s') :
    TablesOk pp val good start s' := by
  have hval' : ∀ p : Position, val p.row = p.volumeBigint := fun p => hval _ (hgood p)
  cases step_move h with
  | begin => exact hok.begin _ _
  | @close _ k tx phase hk hopen hclosed hphase =>
    have hlegs := hok.legs tx (mem_of_getElem? hk)
    have hnot : phase.isOpen ≠ true := by rw [hclosed]; exact Bool.false_ne_true
    exact hok.setTx hk hopen (Nat.le_refl _) hphase hlegs (fun hopen' => absurd hopen' hnot)
      (fun hopen' => absurd hopen' hnot)
  | @reserve k tx _ hk hphase =>
    have hopen : tx.phase.isOpen = true := by rw [hphase]; rfl
    have hlegs := hok.legs tx (mem_of_getElem? hk)
    have htx := hok.txs _ _ hk hopen
    have houtbox : tx.touched = tx.done.map PositionLeg.key :=
      touched_of_not_write fun _ _ h => by rw [hphase] at h; cases h
    have htouched : ({ tx with phase := .select } : PositionTx).touched = tx.touched :=
      (touched_of_not_write fun _ _ h => by cases h).trans houtbox.symm
    refine hok.setTx hk hopen (Nat.le_refl _) (fun h => by cases h) hlegs (fun _ => ?_)
      (fun _ other hother => ?_)
    · refine ⟨?_, htx.below, ?_, htx.good_writes, htx.volume, htx.covered,
        fun _ _ _ _ h => by cases h⟩
      · rw [htouched]
        exact htx.owns
      · rw [htouched]
        exact htx.good_rows
    · have hapart := hok.apart_others hk hopen other hother
      exact ⟨by rw [htouched]; exact hapart.touched, hapart.places⟩
  | @first k tx fault leg rest target new hk hphase htodo hcompute =>
    have hopen : tx.phase.isOpen = true := by rw [hphase]; rfl
    have hlegs := hok.legs tx (mem_of_getElem? hk)
    have htx := hok.txs _ _ hk hopen
    have hhead : leg ∈ tx.todo.head? := by rw [htodo]; rfl
    have hrows : ∀ id r, s.rows id = some r → r.key = leg.key → good r := fun id r hr =>
      hfinds tx hk leg hhead id (hok.below id r hr) r hr
    have hselected := selected_of_query htx hok.below hval hrows hcompute
    refine hok.setTx hk hopen (Nat.le_refl _) (fun h => by cases h) hlegs
      (fun _ => htx.first hphase htodo hrows hselected) (fun _ other hother => ?_)
    have hapart := hok.apart_others hk hopen other hother
    refine ⟨fun key hkey => ?_, hapart.places⟩
    have hwrite : ({ tx with phase := .write target new } : PositionTx).phase =
      .write target new := rfl
    rcases (mem_touched_write hwrite htodo).mp hkey with rfl | hdone
    · exact hisolated tx hk leg hhead other hother
    · exact hapart.touched key (done_subset_touched hdone)
  | @save k id tx leg rest new hk hphase htodo hheld hothers =>
    have hopen : tx.phase.isOpen = true := by rw [hphase]; rfl
    have htx := hok.txs k tx hk hopen
    have hsel := htx.selected _ _ _ _ hphase htodo
    obtain ⟨old, hold, hkey⟩ := hsel.found id rfl
    exact hok.wrote hval' hgood hk hphase htodo (Nat.le_refl _)
      (hok.below.view htx.below id old hold) (.inl ⟨old, hold, hkey.trans hsel.key.symm⟩) hothers
  | @create k tx leg rest new hk hphase htodo =>
    have hopen : tx.phase.isOpen = true := by rw [hphase]; rfl
    have htx := hok.txs k tx hk hopen
    have hsel := htx.selected _ _ _ _ hphase htodo
    -- the next value of the sequence is a place that nobody uses
    have hplace : view s.rows tx.writes s.nextID = none := by
      cases hrow : view s.rows tx.writes s.nextID with
      | none => rfl
      | some r => exact absurd (hok.below.view htx.below _ r hrow) (Nat.lt_irrefl _)
    refine hok.wrote hval' hgood hk hphase htodo (Nat.le_succ _) (Nat.lt_succ_self _)
      (.inr ⟨hplace, fun i r hr => ?_⟩) (fun other hother hid => ?_)
    · rw [show new.row.key = leg.key from hsel.key]
      exact hsel.missing rfl i r hr
    · obtain ⟨j, -, hj, hopen'⟩ := mem_others.mp hother
      obtain ⟨w, hw, hfst⟩ := mem_map.mp hid
      have hlt := (hok.txs j other hj hopen').below w hw
      omega
  | commit hk hphase htodo => exact hok.commit hk hphase htodo _

end

end CexHertz

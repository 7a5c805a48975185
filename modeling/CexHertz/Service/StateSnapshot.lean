import CexHertz.Lib.DelimitedRecords
import CexHertz.Lib.KeyOrder
import Mathlib

/-!
# Snapshots and their checksums

`CalculateChecksum` of `state_snapshot.go` writes the fields of a snapshot, sorted by the keys of
the maps, and hashes the text. Times, the depths and the spread of the order book are left out, and
strings are not escaped: a separator inside of one makes the text of another snapshot.
-/

namespace CexHertz

open List KeyOrder Delimited

/-! ## Snapshots

A map is the list of its entries in the order in which a loop comes upon them. -/

structure OrderSnapshot where
  orderID : String
  userID : String
  symbol : String
  side : String
  price : Int
  quantity : Int
  filledQty : Int
  status : String
  createdAt : Int
  updatedAt : Int
  deriving DecidableEq

structure TradeSnapshot where
  tradeID : String
  buyerID : String
  sellerID : String
  symbol : String
  price : Int
  quantity : Int
  createdAt : Int
  deriving DecidableEq

structure PositionSnapshot where
  userID : String
  symbol : String
  quantityHeld : Int
  costBase : Int
  realizedPnl : Int
  unrealizedPnl : Int
  updatedAt : Int
  deriving DecidableEq

open PositionSnapshot

structure OrderBookSnapshot where
  symbol : String
  lastTradePrice : Int
  bidBook : AList fun _ : Int => Int
  askBook : AList fun _ : Int => Int
  bestBid : Int
  bestAsk : Int
  bidDepth : Int
  askDepth : Int
  spread : Int

structure StateSnapshot where
  timestamp : Int
  orders : AList fun _ : String => OrderSnapshot
  trades : AList fun _ : String => TradeSnapshot
  positions : AList fun _ : String => PositionSnapshot
  orderBook : Option OrderBookSnapshot
  checksum : String
  eventCount : Int
  orderCount : Int
  tradeCount : Int
  positionCount : Int

/-! ## The text of a snapshot -/

def decimal (n : Int) : String := toString n

def record (tag : String) (fields : List String) : Delimited.Record Char :=
  ⟨tag.toList, fields.map String.toList⟩

def OrderSnapshot.record (entry : OrderSnapshot) : Delimited.Record Char :=
  CexHertz.record "O" [entry.orderID, entry.userID, entry.symbol, entry.side, decimal entry.price,
    decimal entry.quantity, decimal entry.filledQty, entry.status]

def TradeSnapshot.record (entry : TradeSnapshot) : Delimited.Record Char :=
  CexHertz.record "T" [entry.tradeID, entry.buyerID, entry.sellerID, entry.symbol,
    decimal entry.price, decimal entry.quantity]

def PositionSnapshot.record (entry : PositionSnapshot) : Delimited.Record Char :=
  CexHertz.record "P" [entry.userID, entry.symbol, decimal entry.quantityHeld,
    decimal entry.costBase, decimal entry.realizedPnl, decimal entry.unrealizedPnl]

def OrderBookSnapshot.record (book : OrderBookSnapshot) : Delimited.Record Char :=
  CexHertz.record "B" [book.symbol, decimal book.lastTradePrice, decimal book.bestBid,
    decimal book.bestAsk]

def levelRecords (tag : String) (levels : AList fun _ : Int => Int) :
    List (Delimited.Record Char) :=
  (entries levels).map fun level => record tag [decimal level.1, decimal level.2]

namespace StateSnapshot

variable (s : StateSnapshot)

def bookRecords : List (Delimited.Record Char) :=
  match s.orderBook with
  | none => []
  | some book => book.record :: (levelRecords "BB" book.bidBook ++ levelRecords "AB" book.askBook)

def countRecord : Delimited.Record Char :=
  CexHertz.record "C" [decimal s.eventCount, decimal s.orderCount, decimal s.tradeCount,
    decimal s.positionCount]

def records : List (Delimited.Record Char) :=
  ((entries s.orders).map fun e => e.2.record) ++
    (((entries s.trades).map fun e => e.2.record) ++
      (((entries s.positions).map fun e => e.2.record) ++
        (s.bookRecords ++ [s.countRecord])))

/-- `CalculateChecksum`; `hash` is SHA-256 in hexadecimal. -/
def calculateChecksum (hash : String → String) : String :=
  hash (String.ofList (render ':' '|' s.records))

end StateSnapshot

/-! ## What a snapshot says -/

def OrderSnapshot.core (entry : OrderSnapshot) : OrderSnapshot :=
  { entry with createdAt := 0, updatedAt := 0 }

def TradeSnapshot.core (entry : TradeSnapshot) : TradeSnapshot := { entry with createdAt := 0 }

def PositionSnapshot.core (entry : PositionSnapshot) : PositionSnapshot :=
  { entry with updatedAt := 0 }

structure BookContent where
  symbol : String
  lastTradePrice : Int
  bids : Int → Option Int
  asks : Int → Option Int
  bestBid : Int
  bestAsk : Int
  bidDepth : Int
  askDepth : Int
  spread : Int

open BookContent

structure SnapshotContent where
  orders : String → Option OrderSnapshot
  trades : String → Option TradeSnapshot
  positions : String → Option PositionSnapshot
  orderBook : Option BookContent
  eventCount : Int
  orderCount : Int
  tradeCount : Int
  positionCount : Int

def OrderBookSnapshot.content (book : OrderBookSnapshot) : BookContent where
  symbol := book.symbol
  lastTradePrice := book.lastTradePrice
  bids := fun price => book.bidBook.lookup price
  asks := fun price => book.askBook.lookup price
  bestBid := book.bestBid
  bestAsk := book.bestAsk
  bidDepth := book.bidDepth
  askDepth := book.askDepth
  spread := book.spread

def StateSnapshot.content (s : StateSnapshot) : SnapshotContent where
  orders := fun id => (s.orders.lookup id).map OrderSnapshot.core
  trades := fun id => (s.trades.lookup id).map TradeSnapshot.core
  positions := fun id => (s.positions.lookup id).map core
  orderBook := s.orderBook.map OrderBookSnapshot.content
  eventCount := s.eventCount
  orderCount := s.orderCount
  tradeCount := s.tradeCount
  positionCount := s.positionCount

def BookContent.hashed (c : BookContent) : BookContent :=
  { c with bidDepth := 0, askDepth := 0, spread := 0 }

def SnapshotContent.hashed (c : SnapshotContent) : SnapshotContent :=
  { c with orderBook := c.orderBook.map BookContent.hashed }

theorem SnapshotContent.eq_of_hashed {c c' : SnapshotContent} (h : c.hashed = c'.hashed)
    (hbook : c.orderBook = c'.orderBook) : c = c' := by
  cases c
  cases c'
  rw [mk.injEq] at h ⊢
  exact ⟨h.1, h.2.1, h.2.2.1, hbook, h.2.2.2.2⟩

/-! ## Records of the parts -/

theorem decimal_inj {m n : Int} : decimal m = decimal n ↔ m = n :=
  ⟨fun h => Int.repr_injective h, congrArg decimal⟩

theorem colon_not_mem_decimal (n : Int) : ':' ∉ (decimal n).toList :=
  not_mem_toString (by decide) (by decide) n

theorem record_inj {tag : String} {fields fields' : List String} :
    record tag fields = record tag fields' ↔ fields = fields' := by
  unfold record
  rw [Delimited.Record.mk.injEq, and_iff_right rfl]
  exact (map_injective_iff.mpr fun _ _ h => String.toList_inj.mp h).eq_iff

theorem OrderSnapshot.record_eq_iff (e e' : OrderSnapshot) :
    e.record = e'.record ↔ e.core = e'.core := by
  unfold OrderSnapshot.record core
  rw [record_inj]
  simp only [List.cons.injEq, decimal_inj, OrderSnapshot.mk.injEq, and_true]

theorem TradeSnapshot.record_eq_iff (e e' : TradeSnapshot) :
    e.record = e'.record ↔ e.core = e'.core := by
  unfold TradeSnapshot.record core
  rw [record_inj]
  simp only [List.cons.injEq, decimal_inj, TradeSnapshot.mk.injEq, and_true]

theorem PositionSnapshot.record_eq_iff (e e' : PositionSnapshot) :
    e.record = e'.record ↔ e.core = e'.core := by
  unfold record core
  rw [record_inj]
  simp only [List.cons.injEq, decimal_inj, mk.injEq, and_true]

theorem levelRecords_eq_iff {tag : String} {levels levels' : AList fun _ : Int => Int} :
    levelRecords tag levels = levelRecords tag levels' ↔
      (fun price => levels.lookup price) = fun price => levels'.lookup price := by
  have hlevels : _ ↔ ∀ price, (levels.lookup price).map id = (levels'.lookup price).map id :=
    entries_map_eq_iff id
  simp only [Option.map_id_fun, id_eq] at hlevels
  rw [funext_iff, ← hlevels]
  apply map_eq_map_iff_of
  rintro ⟨price, quantity⟩ - ⟨price', quantity'⟩ -
  rw [record_inj]
  simp only [List.cons.injEq, decimal_inj, Prod.mk.injEq, and_true]

structure StateSnapshot.Keyed (s : StateSnapshot) : Prop where
  orders : ∀ id e, s.orders.lookup id = some e → e.orderID = id
  trades : ∀ id e, s.trades.lookup id = some e → e.tradeID = id
  positions : ∀ id e, s.positions.lookup id = some e → e.userID = id

/-! ## The records of a snapshot and what it says -/

def Tagged (tags : List String) (records : List (Delimited.Record Char)) : Prop :=
  ∀ r ∈ records, r.tag ∈ tags.map String.toList

section

variable {tag : String} {tags tags' : List String} {l l' r r' : List (Delimited.Record Char)}

theorem tagged_map {β : Type} (tag : String) (fields : β → List String) (l : List β) :
    Tagged [tag] (l.map fun x => record tag (fields x)) := by
  intro r hr
  obtain ⟨x, -, rfl⟩ := mem_map.mp hr
  exact mem_singleton_self _

theorem tagged_levelRecords (tag : String) (levels : AList fun _ : Int => Int) :
    Tagged [tag] (levelRecords tag levels) := tagged_map tag _ _

theorem Tagged.append (hl : Tagged tags l) (hr : Tagged tags' r) :
    Tagged (tags ++ tags') (l ++ r) := by
  intro x hx
  rw [map_append, mem_append]
  rcases mem_append.mp hx with hx | hx
  · exact .inl (hl x hx)
  · exact .inr (hr x hx)

theorem append_eq_append_iff_of_tagged (hne : tag.toList ∉ tags.map String.toList)
    (hl : Tagged [tag] l) (hl' : Tagged [tag] l') (hr : Tagged tags r) (hr' : Tagged tags r') :
    l ++ r = l' ++ r' ↔ l = l' ∧ r = r' := by
  have hfirst : ∀ {l r : List (Delimited.Record Char)}, Tagged [tag] l → Tagged tags r →
      (l ++ r).filter (fun x => x.tag = tag.toList) = l := by
    intro l r hl hr
    rw [filter_append, filter_eq_self.mpr, filter_eq_nil_iff.mpr, append_nil]
    · intro x hx htag
      exact hne (of_decide_eq_true htag ▸ hr x hx)
    · intro x hx
      exact decide_eq_true (mem_singleton.mp (hl x hx))
  constructor
  · intro h
    have hleft : l = l' := by rw [← hfirst hl hr, h, hfirst hl' hr']
    subst hleft
    exact ⟨rfl, append_cancel_left h⟩
  · rintro ⟨rfl, rfl⟩
    rfl

end

namespace StateSnapshot

variable {s t : StateSnapshot}

theorem tagged_bookRecords (s : StateSnapshot) : Tagged ["B", "BB", "AB"] s.bookRecords := by
  unfold bookRecords
  cases s.orderBook with
  | none => exact nofun
  | some book =>
    have hbook : Tagged ["B"] [book.record] := fun r hr => by
      rw [mem_singleton.mp hr]
      exact mem_singleton_self _
    exact hbook.append ((tagged_levelRecords "BB" _).append (tagged_levelRecords "AB" _))

theorem bookRecords_eq_iff : s.bookRecords = t.bookRecords ↔
      s.content.orderBook.map hashed = t.content.orderBook.map hashed := by
  unfold bookRecords content
  cases s.orderBook with
  | none =>
    cases t.orderBook with
    | none => exact iff_of_true rfl rfl
    | some book => exact iff_of_false (fun h => by cases h) fun h => by cases h
  | some book =>
    cases t.orderBook with
    | none => exact iff_of_false (fun h => by cases h) fun h => by cases h
    | some book' =>
      dsimp only [Option.map]
      rw [List.cons.injEq, append_eq_append_iff_of_tagged (by decide) (tagged_levelRecords "BB" _)
        (tagged_levelRecords "BB" _) (tagged_levelRecords "AB" _) (tagged_levelRecords "AB" _),
        levelRecords_eq_iff, levelRecords_eq_iff]
      unfold OrderBookSnapshot.record OrderBookSnapshot.content BookContent.hashed
      rw [record_inj]
      simp only [List.cons.injEq, decimal_inj, Option.some.injEq, BookContent.mk.injEq, and_true]
      tauto

theorem countRecord_eq_iff :
    s.countRecord = t.countRecord ↔ s.eventCount = t.eventCount ∧ s.orderCount = t.orderCount ∧
      s.tradeCount = t.tradeCount ∧ s.positionCount = t.positionCount := by
  unfold countRecord
  rw [record_inj]
  simp only [List.cons.injEq, decimal_inj, and_true]

theorem records_eq_iff (hs : s.Keyed) (ht : t.Keyed) :
    s.records = t.records ↔ s.content.hashed = t.content.hashed := by
  have hcount : ∀ s : StateSnapshot, Tagged ["C"] [s.countRecord] := fun s r hr => by
    rw [mem_singleton.mp hr]
    exact mem_singleton_self _
  have hbook : ∀ s : StateSnapshot, Tagged _ (s.bookRecords ++ [s.countRecord]) := fun s =>
    (tagged_bookRecords s).append (hcount s)
  have hpositions : ∀ s : StateSnapshot,
      Tagged ["P"] ((entries s.positions).map fun e => e.2.record) := fun s =>
    tagged_map "P" _ _
  have htrades : ∀ s : StateSnapshot,
      Tagged ["T"] ((entries s.trades).map fun e => e.2.record) := fun s =>
    tagged_map "T" _ _
  have horders : ∀ s : StateSnapshot,
      Tagged ["O"] ((entries s.orders).map fun e => e.2.record) := fun s =>
    tagged_map "O" _ _
  have hlast : s.bookRecords ++ [s.countRecord] = t.bookRecords ++ [t.countRecord] ↔
      s.bookRecords = t.bookRecords ∧ s.countRecord = t.countRecord := by
    constructor
    · intro h
      obtain ⟨hbooks, hcounts⟩ := append_inj' h rfl
      exact ⟨hbooks, head_eq_of_cons_eq hcounts⟩
    · rintro ⟨hbooks, hcounts⟩
      rw [hbooks, hcounts]
  unfold records
  rw [append_eq_append_iff_of_tagged (by decide) (horders s) (horders t)
      ((htrades s).append ((hpositions s).append (hbook s)))
      ((htrades t).append ((hpositions t).append (hbook t))),
    append_eq_append_iff_of_tagged (by decide) (htrades s) (htrades t)
      ((hpositions s).append (hbook s)) ((hpositions t).append (hbook t)),
    append_eq_append_iff_of_tagged (by decide) (hpositions s) (hpositions t) (hbook s) (hbook t),
    hlast,
    entries_values_eq_iff OrderSnapshot.core hs.orders ht.orders
      OrderSnapshot.record_eq_iff fun _ _ => congrArg OrderSnapshot.orderID,
    entries_values_eq_iff TradeSnapshot.core hs.trades ht.trades
      TradeSnapshot.record_eq_iff fun _ _ => congrArg TradeSnapshot.tradeID,
    entries_values_eq_iff core hs.positions ht.positions
      record_eq_iff fun _ _ => congrArg userID,
    bookRecords_eq_iff, countRecord_eq_iff]
  unfold SnapshotContent.hashed
  rw [SnapshotContent.mk.injEq]
  unfold content
  simp only [funext_iff]

end StateSnapshot

/-! ## Strings without a separator -/

def OrderSnapshot.texts (e : OrderSnapshot) : List String :=
  [e.orderID, e.userID, e.symbol, e.side, e.status]

def TradeSnapshot.texts (e : TradeSnapshot) : List String :=
  [e.tradeID, e.buyerID, e.sellerID, e.symbol]

def PositionSnapshot.texts (e : PositionSnapshot) : List String := [e.userID, e.symbol]

inductive StateSnapshot.HasText (s : StateSnapshot) : String → Prop
  | order {id : String} {e : OrderSnapshot} (h : s.orders.lookup id = some e) {text : String}
      (htext : text ∈ e.texts) : s.HasText text
  | trade {id : String} {e : TradeSnapshot} (h : s.trades.lookup id = some e) {text : String}
      (htext : text ∈ e.texts) : s.HasText text
  | position {id : String} {e : PositionSnapshot} (h : s.positions.lookup id = some e)
      {text : String} (htext : text ∈ e.texts) : s.HasText text
  | book {book : OrderBookSnapshot} (h : s.orderBook = some book) : s.HasText book.symbol

def recordArity (tag : List Char) : Nat :=
  if tag = "O".toList then 8
  else if tag = "T".toList ∨ tag = "P".toList then 6
  else if tag = "B".toList ∨ tag = "C".toList then 4
  else 2

section

variable {tag : String} {fields : List String}

theorem recordArity_pos (tag : List Char) : 0 < recordArity tag := by
  unfold recordArity
  split
  next => decide
  next =>
    split
    next => decide
    next => split <;> decide

theorem record_clean (htag : ':' ∉ tag.toList ∧ '|' ∉ tag.toList)
    (harity : fields.length = recordArity tag.toList)
    (hfields : ∀ field ∈ fields, ':' ∉ field.toList) :
    (record tag fields).Clean ':' '|' recordArity where
  sep_tag := htag.1
  stop_tag := htag.2
  sep_fields := by
    intro field hfield
    obtain ⟨text, htext, rfl⟩ := mem_map.mp hfield
    exact hfields text htext
  arity_pos := by
    unfold record
    rw [length_map, harity]
    exact recordArity_pos _
  arity_eq := by
    unfold record
    rwa [length_map]

theorem levelRecords_clean (htag : ':' ∉ tag.toList ∧ '|' ∉ tag.toList)
    (harity : 2 = recordArity tag.toList) (levels : AList fun _ : Int => Int) :
    ∀ r ∈ levelRecords tag levels, Delimited.Record.Clean ':' '|' recordArity r := by
  intro r hr
  obtain ⟨level, -, rfl⟩ := mem_map.mp hr
  refine CexHertz.record_clean htag harity ?_
  simp [colon_not_mem_decimal]

end

namespace StateSnapshot

variable {s t : StateSnapshot} {hash : String → String}

theorem bookRecords_clean (h : ∀ text, s.HasText text → ':' ∉ text.toList) :
    ∀ r ∈ s.bookRecords, Delimited.Record.Clean ':' '|' recordArity r := by
  unfold bookRecords
  cases hbook : s.orderBook with
  | none => exact nofun
  | some book =>
    rw [forall_mem_cons, forall_mem_append]
    refine ⟨?_, levelRecords_clean (by decide) rfl _, levelRecords_clean (by decide) rfl _⟩
    apply CexHertz.record_clean (by decide) rfl
    simpa [colon_not_mem_decimal] using h _ (.book hbook)

theorem countRecord_clean (s : StateSnapshot) : s.countRecord.Clean ':' '|' recordArity := by
  apply CexHertz.record_clean (by decide) rfl
  simp [colon_not_mem_decimal]

theorem records_clean (h : ∀ text, s.HasText text → ':' ∉ text.toList) :
    ∀ r ∈ s.records, Delimited.Record.Clean ':' '|' recordArity r := by
  unfold records
  simp only [forall_mem_append, forall_mem_map, forall_mem_singleton]
  refine ⟨?_, ?_, ?_, bookRecords_clean h, s.countRecord_clean⟩
  · rintro ⟨id, e⟩ he
    apply CexHertz.record_clean (by decide) rfl
    have htexts := fun text htext => h text (.order (mem_entries.mp he) htext)
    simpa [OrderSnapshot.texts, colon_not_mem_decimal] using htexts
  · rintro ⟨id, e⟩ he
    apply CexHertz.record_clean (by decide) rfl
    have htexts := fun text htext => h text (.trade (mem_entries.mp he) htext)
    simpa [TradeSnapshot.texts, colon_not_mem_decimal] using htexts
  · rintro ⟨id, e⟩ he
    apply CexHertz.record_clean (by decide) rfl
    have htexts := fun text htext => h text (.position (mem_entries.mp he) htext)
    simpa [PositionSnapshot.texts, colon_not_mem_decimal] using htexts

/-- Snapshots that say the same but for times, depths and spreads have the same checksum; without a
colon in their strings no others have. -/
theorem calculateChecksum_eq_iff (hhash : Function.Injective hash) (hs : s.Keyed) (ht : t.Keyed)
    (hcolon : ∀ text, s.HasText text → ':' ∉ text.toList)
    (hcolon' : ∀ text, t.HasText text → ':' ∉ text.toList) :
    s.calculateChecksum hash = t.calculateChecksum hash ↔
      s.content.hashed = t.content.hashed := by
  rw [← records_eq_iff hs ht]
  unfold calculateChecksum
  rw [hhash.eq_iff, String.ofList_inj]
  constructor
  · exact render_injective (by decide) (records_clean hcolon) (records_clean hcolon')
  · intro h
    rw [h]

theorem calculateChecksum_of_hashed (hash : String → String) (hs : s.Keyed) (ht : t.Keyed)
    (h : s.content.hashed = t.content.hashed) :
    s.calculateChecksum hash = t.calculateChecksum hash := by
  unfold calculateChecksum
  rw [(records_eq_iff hs ht).mpr h]

/-- The snapshots whose strings are made of the given characters and whose order book is one of the
given ones. -/
structure Within (allowed : Char → Prop) (books : OrderBookSnapshot → Prop) (s : StateSnapshot) :
    Prop where
  keyed : s.Keyed
  texts : ∀ text, s.HasText text → ∀ c ∈ text.toList, allowed c
  book : ∀ book, s.orderBook = some book → books book

def ofBook (book : OrderBookSnapshot) : StateSnapshot :=
  ⟨0, ∅, ∅, ∅, some book, "", 0, 0, 0, 0⟩

theorem ofBook_keyed (book : OrderBookSnapshot) : (ofBook book).Keyed := by
  constructor <;> (intro id e h; cases h)

theorem ofBook_within {allowed : Char → Prop} {books : OrderBookSnapshot → Prop}
    {book : OrderBookSnapshot} (hbook : books book)
    (hsymbol : ∀ c ∈ book.symbol.toList, allowed c) :
    (ofBook book).Within allowed books where
  keyed := ofBook_keyed book
  texts := by
    intro text htext
    cases htext with
    | order h _ | trade h _ | position h _ => cases h
    | book h =>
      cases h
      exact hsymbol
  book := by
    intro book' h
    cases h
    exact hbook

def ofOrder (userID symbol : String) : StateSnapshot :=
  ⟨0, AList.singleton "" ⟨"", userID, symbol, "", 0, 0, 0, "", 0, 0⟩, ∅, ∅, none, "", 0, 0, 0, 0⟩

theorem ofOrder_lookup {userID symbol id : String} {e : OrderSnapshot}
    (h : (ofOrder userID symbol).orders.lookup id = some e) :
    id = "" ∧ e = ⟨"", userID, symbol, "", 0, 0, 0, "", 0, 0⟩ := by
  have hmem := AList.mem_lookup_iff.mp h
  cases mem_singleton.mp hmem
  exact ⟨rfl, rfl⟩

theorem ofOrder_keyed (userID symbol : String) : (ofOrder userID symbol).Keyed := by
  constructor
  · intro id e h
    obtain ⟨rfl, rfl⟩ := ofOrder_lookup h
    rfl
  · intro id e h
    cases h
  · intro id e h
    cases h

theorem ofOrder_within {allowed : Char → Prop} {books : OrderBookSnapshot → Prop}
    {userID symbol : String} (huser : ∀ c ∈ userID.toList, allowed c)
    (hsymbol : ∀ c ∈ symbol.toList, allowed c) : (ofOrder userID symbol).Within allowed books where
  keyed := ofOrder_keyed userID symbol
  texts := by
    have hempty : ∀ c ∈ "".toList, allowed c := nofun
    intro text htext
    cases htext with
    | order h htext =>
      obtain ⟨-, rfl⟩ := ofOrder_lookup h
      revert text
      simp only [OrderSnapshot.texts, forall_mem_cons]
      exact ⟨hempty, huser, hsymbol, hempty, hempty, nofun⟩
    | trade h _ | position h _ | book h => cases h
  book := fun book h => by cases h

theorem ofOrder_text : render ':' '|' (ofOrder ":" "").records =
      render ':' '|' (ofOrder "" ":").records := by
  decide +kernel

section

variable {hash : String → String} {allowed : Char → Prop} {books : OrderBookSnapshot → Prop}
  (h : ∀ s t : StateSnapshot, s.Within allowed books → t.Within allowed books →
    s.calculateChecksum hash = t.calculateChecksum hash → s.content = t.content)

include h in
theorem not_allowed_colon : ¬ allowed ':' := by
  intro hcolon
  have hone : ∀ c ∈ ":".toList, allowed c := fun c hc => by
    rwa [mem_singleton.mp hc]
  have hnone : ∀ c ∈ "".toList, allowed c := nofun
  have hcontent := h _ _ (ofOrder_within hone hnone) (ofOrder_within hnone hone)
    (congrArg (fun text => hash (String.ofList text)) ofOrder_text)
  have horder := congrFun (congrArg SnapshotContent.orders hcontent) ""
  exact absurd horder (by decide +kernel)

include h in
theorem book_content_eq {book book' : OrderBookSnapshot} (hbook : books book) (hbook' : books book')
    (hsymbol : ∀ c ∈ book.symbol.toList, allowed c)
    (hsymbol' : ∀ c ∈ book'.symbol.toList, allowed c)
    (hhashed : book.content.hashed = book'.content.hashed) : book.content = book'.content := by
  have hs := ofBook_within hbook hsymbol
  have ht := ofBook_within hbook' hsymbol'
  have hcontent := h _ _ hs ht (calculateChecksum_of_hashed hash hs.keyed ht.keyed (by
    show SnapshotContent.mk _ _ _ (some book.content.hashed) 0 0 0 0 =
      SnapshotContent.mk _ _ _ (some book'.content.hashed) 0 0 0 0
    rw [hhashed]
    rfl))
  exact Option.some.inj (congrArg SnapshotContent.orderBook hcontent)

theorem Within.content_eq {s t : StateSnapshot} (hs : s.Within allowed books)
    (ht : t.Within allowed books)
    (hbooks : ∀ book book', books book → books book' → (∀ c ∈ book.symbol.toList, allowed c) →
      (∀ c ∈ book'.symbol.toList, allowed c) → book.content.hashed = book'.content.hashed →
        book.content = book'.content)
    (h : s.content.hashed = t.content.hashed) : s.content = t.content := by
  apply SnapshotContent.eq_of_hashed h
  have hbook : (s.orderBook.map OrderBookSnapshot.content).map hashed =
      (t.orderBook.map OrderBookSnapshot.content).map hashed :=
    congrArg SnapshotContent.orderBook h
  show s.orderBook.map _ = t.orderBook.map _
  cases hsb : s.orderBook with
  | none =>
    rw [hsb, Option.map_none, Option.map_none, eq_comm, Option.map_eq_none_iff] at hbook
    rw [hbook]
    rfl
  | some book =>
    cases htb : t.orderBook with
    | none =>
      rw [hsb, htb] at hbook
      cases hbook
    | some book' =>
      rw [hsb, htb] at hbook
      exact congrArg some (hbooks book book' (hs.book book hsb) (ht.book book' htb)
        (hs.texts _ (.book hsb)) (ht.texts _ (.book htb)) (Option.some.inj hbook))

end

/-- Checksums tell the snapshots of a class apart exactly when no string of the class can hold a
colon, and the depths and the spread of its order books follow from the other fields. -/
theorem checksum_exact_iff (hash : String → String) (hhash : Function.Injective hash)
    (allowed : Char → Prop) (books : OrderBookSnapshot → Prop) :
    (∀ s t : StateSnapshot, s.Within allowed books → t.Within allowed books →
      (s.calculateChecksum hash = t.calculateChecksum hash ↔ s.content = t.content)) ↔
    ¬ allowed ':' ∧ ∀ book book', books book → books book' → (∀ c ∈ book.symbol.toList, allowed c) →
        (∀ c ∈ book'.symbol.toList, allowed c) → book.content.hashed = book'.content.hashed →
          book.content = book'.content := by
  constructor
  · intro h
    have hexact := fun s t hs ht => (h s t hs ht).mp
    exact ⟨not_allowed_colon hexact, fun _ _ => book_content_eq hexact⟩
  · rintro ⟨hcolon, hbooks⟩ s t hs ht
    have hfree : ∀ {s : StateSnapshot}, s.Within allowed books →
        ∀ text, s.HasText text → ':' ∉ text.toList := fun hs text htext hmem =>
      hcolon (hs.texts text htext _ hmem)
    rw [calculateChecksum_eq_iff hhash hs.keyed ht.keyed (hfree hs) (hfree ht)]
    constructor
    · exact hs.content_eq ht hbooks
    · intro h
      rw [h]

end StateSnapshot

/-! ## Order books as their fields are described -/

def levelsDepth (levels : AList fun _ : Int => Int) : Int :=
  (entries levels).foldr (fun level depth => level.2 + depth) 0

/-- The depths are the sums of the levels and the spread is the distance of the best prices. -/
structure OrderBookSnapshot.Derived (book : OrderBookSnapshot) : Prop where
  bidDepth : book.bidDepth = levelsDepth book.bidBook
  askDepth : book.askDepth = levelsDepth book.askBook
  spread : book.spread = book.bestAsk - book.bestBid

theorem levelsDepth_congr {levels levels' : AList fun _ : Int => Int}
    (h : (fun price => levels.lookup price) = fun price => levels'.lookup price) :
    levelsDepth levels = levelsDepth levels' := by
  have hentries := (entries_map_eq_iff id).mpr fun price =>
    congrArg (Option.map id) (congrFun h price)
  have hsame : ∀ l : List (Int × Int), (l.map fun e => (e.1, id e.2)) = l := fun l => map_id l
  rw [hsame, hsame] at hentries
  unfold levelsDepth
  rw [hentries]

theorem OrderBookSnapshot.Derived.content_eq {book book' : OrderBookSnapshot} (hbook : book.Derived)
    (hbook' : book'.Derived) (h : book.content.hashed = book'.content.hashed) :
    book.content = book'.content := by
  rw [BookContent.mk.injEq] at h
  obtain ⟨hsymbol, hlast, hbids, hasks, hbid, hask, -⟩ := h
  have hbidDepth : book.bidDepth = book'.bidDepth := by
    rw [hbook.bidDepth, hbook'.bidDepth, levelsDepth_congr hbids]
  have haskDepth : book.askDepth = book'.askDepth := by
    rw [hbook.askDepth, hbook'.askDepth, levelsDepth_congr hasks]
  have hspread : book.spread = book'.spread := by
    rw [hbook.spread, hbook'.spread]
    exact congrArg₂ _ hask hbid
  rw [BookContent.mk.injEq]
  exact ⟨hsymbol, hlast, hbids, hasks, hbid, hask, hbidDepth, haskDepth, hspread⟩

namespace StateSnapshot

def emptyBook (bidDepth : Int) : OrderBookSnapshot :=
  ⟨"BTCUSDT", 0, ∅, ∅, 0, 0, bidDepth, 0, 0⟩

theorem emptyBook_derived : (emptyBook 0).Derived := ⟨rfl, rfl, rfl⟩

/-- Without colons and with order books as described the checksum tells all snapshots apart, those
of an order and of an order book among them. -/
theorem derived_books_exact :
    (ofOrder "alice" "BTCUSDT").Within (· ≠ ':') OrderBookSnapshot.Derived ∧
    (ofBook (emptyBook 0)).Within (· ≠ ':') OrderBookSnapshot.Derived ∧
    ∀ s t : StateSnapshot, s.Within (· ≠ ':') OrderBookSnapshot.Derived →
      t.Within (· ≠ ':') OrderBookSnapshot.Derived →
      (s.calculateChecksum id = t.calculateChecksum id ↔ s.content = t.content) := by
  have hfree : ∀ text : String, ':' ∉ text.toList → ∀ c ∈ text.toList, c ≠ ':' := by
    rintro text hcolon c hc rfl
    exact hcolon hc
  refine ⟨ofOrder_within (hfree _ (by decide +kernel)) (hfree _ (by decide +kernel)),
    ofBook_within emptyBook_derived (hfree _ (by decide +kernel)), ?_⟩
  exact (checksum_exact_iff id Function.injective_id (· ≠ ':') OrderBookSnapshot.Derived).mpr
    ⟨fun h => h rfl, fun _ _ hbook hbook' _ _ h => hbook.content_eq hbook' h⟩

/-- Snapshots of different orders, and of order books of different depths, with one checksum. -/
theorem different_states_one_checksum : ((ofOrder ":" "").Keyed ∧ (ofOrder "" ":").Keyed ∧
      (ofOrder ":" "").calculateChecksum id = (ofOrder "" ":").calculateChecksum id ∧
      (ofOrder ":" "").content ≠ (ofOrder "" ":").content) ∧
    (ofBook (emptyBook 0)).Keyed ∧ (ofBook (emptyBook 5)).Keyed ∧
      (ofBook (emptyBook 0)).calculateChecksum id = (ofBook (emptyBook 5)).calculateChecksum id ∧
      (ofBook (emptyBook 0)).content ≠ (ofBook (emptyBook 5)).content := by
  refine ⟨⟨ofOrder_keyed _ _, ofOrder_keyed _ _, congrArg String.ofList ofOrder_text,
    fun h => ?_⟩, ofBook_keyed _, ofBook_keyed _, by decide +kernel, fun h => ?_⟩
  · have horder := congrFun (congrArg SnapshotContent.orders h) ""
    exact absurd horder (by decide +kernel)
  · have hdepth := congrArg (fun c => c.orderBook.map bidDepth) h
    exact absurd hdepth (by decide +kernel)

end StateSnapshot

end CexHertz

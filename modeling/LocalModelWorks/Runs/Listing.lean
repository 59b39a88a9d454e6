import LocalModelWorks.Base64
import LocalModelWorks.JsonReader
import LocalModelWorks.Keyset
import LocalModelWorks.Runs.State

/-!
# Listing the runs

Both listings go through the ledger by a cursor, one by the creation time alone and one by
creation time and identifier. The engine compares texts by code points. An empty cursor is
`none`.
-/

namespace LocalModelWorks.Runs.Listing

open Keyset List

abbrev Text := List Char

abbrev Mark := { t : Text // t ≠ [] }

structure Run where
  id : Mark
  module : Text
  state : State
  deploymentID : Option Text
  createdAt : Mark
  -- the texts of the input's origin
  clientID : Option Text
  runID : Option Text
  projectID : Option Text
  deriving DecidableEq

def Run.position (run : Run) : Mark ×ₗ Mark := toLex (run.createdAt, run.id)

structure Filter where
  module : Option Text
  state : Option String
  deploymentID : Option Text
  limit : Nat

def Filter.selects (f : Filter) (run : Run) : Bool :=
  f.module.all (run.module = ·) && f.state.all (run.state.text = ·)

variable (E : Engine Run.createdAt) (rows : List Run)

def list (f : Filter) (createdBefore : Option Mark) : List Run :=
  let limit := if f.limit = 0 then 50 else f.limit
  ((E.order (after Run.createdAt (rows.filter f.selects) createdBefore)).take (min limit 200)).filter
    fun run => f.deploymentID.all (run.deploymentID = some ·)

structure Query where
  module : Option Text
  state : Option String
  limit : Nat

def Query.filter (q : Query) : Filter := ⟨q.module, q.state, none, q.limit⟩

/-- `GET /runs` -/
def get (q : Query) (cursor : Option Mark) : Option (List Run × Option Mark) :=
  let items := list E rows q.filter cursor
  some (items, if 0 < items.length ∧ q.limit ≤ items.length then items.getLast?.map Run.createdAt else none)

variable {E : Engine Run.createdAt} {rows : List Run} {q : Query}

theorem list_query (hLimit : 0 < q.limit) (cursor : Option Mark) : list E rows q.filter cursor =
    (E.order (after Run.createdAt (rows.filter q.filter.selects) cursor)).take (min q.limit 200) := by
  rw [list, Query.filter, if_neg (Nat.ne_of_gt hLimit)]
  exact filter_eq_self.mpr fun _ _ => rfl

theorem get_eq_page (hLimit : 0 < q.limit) (hMost : q.limit ≤ 200) :
    get E rows q = page E (rows.filter q.filter.selects) q.limit 0 := by
  funext cursor
  rw [get, page, list_query hLimit, Nat.min_eq_left hMost]
  generalize E.order _ = found
  by_cases hMore : q.limit ≤ found.length
  · have hLen := length_take_of_le hMore
    rw [if_pos (by omega), if_pos (by omega), getLast?_take, if_neg (by omega), getElem?_eq_getElem (by omega)]
    rfl
  · rw [if_neg (by rw [length_take]; omega), if_neg (by omega)]

theorem get_of_large (hLarge : 200 < q.limit) (cursor : Option Mark) :
    get E rows q cursor = some (list E rows q.filter cursor, none) := by
  have hLen : (list E rows q.filter cursor).length ≤ 200 := by
    rw [list_query (by omega)]
    exact (length_take_le ..).trans (Nat.min_le_right ..)
  rw [get, if_neg (by omega)]

/-- Following the cursors lists every selected run once and newest first. -/
def Lists (E : Engine Run.createdAt) (rows : List Run) (q : Query) : Prop :=
  ∃ fuel items, follow (get E rows q) fuel none = some items ∧ Exact Run.createdAt (rows.filter q.filter.selects) items

theorem lists_iff_clear (hLimit : 0 < q.limit) (hMost : q.limit ≤ 200) :
    Lists E rows q ↔ Clear q.limit (sortedKeys Run.createdAt (rows.filter q.filter.selects)) := by
  have h := follow_exact_iff E (rows.filter q.filter.selects) hLimit (Nat.zero_le 1) none
  rwa [after_none, ← get_eq_page hLimit hMost] at h

theorem lists_iff_few (hLarge : 200 < q.limit) : Lists E rows q ↔ (rows.filter q.filter.selects).length ≤ 200 := by
  have hGet := @get_of_large E rows q hLarge none
  have hFound := E.exact (rows.filter q.filter.selects)
  rw [list_query (by omega), after_none, Nat.min_eq_right (by omega)] at hGet
  rw [← hFound.perm.length_eq]
  constructor
  · rintro ⟨fuel, items, hFollow, hItems⟩
    cases fuel with
    | zero => cases hFollow
    | succ fuel =>
      rw [follow, hGet] at hFollow
      cases hFollow
      rw [hFound.perm.length_eq, ← hItems.perm.length_eq]
      exact length_take_le ..
  intro hFew
  rw [take_of_length_le hFew] at hGet
  exact ⟨1, _, by rw [follow, hGet], hFound⟩

theorem runs_listed_iff (E : Engine Run.createdAt) (rows : List Run) (q : Query) (hLimit : 0 < q.limit) :
    Lists E rows q ↔ if q.limit ≤ 200 then Clear q.limit (sortedKeys Run.createdAt (rows.filter q.filter.selects))
      else (rows.filter q.filter.selects).length ≤ 200 := by
  split
  · exact lists_iff_clear hLimit ‹_›
  · exact lists_iff_few (Nat.lt_of_not_le ‹_›)

def tied (id : Char) : Run :=
  ⟨⟨[id], cons_ne_nil _ _⟩, "benchmarks".toList, .succeeded, none, ⟨"2026-01-01T00:00:00Z".toList, by decide⟩,
    none, none, none⟩

theorem runs_listed_on_one_page : Lists (.stable _) [tied 'a', tied 'b'] ⟨none, none, 2⟩ :=
  (runs_listed_iff _ _ ⟨none, none, 2⟩ (by decide)).mpr (clear_of_length_le (by decide +kernel))

theorem runs_lost_at_page_end : ¬Lists (.stable _) [tied 'a', tied 'b'] ⟨none, none, 1⟩ := by
  intro h
  have hClear : Clear 1 (sortedKeys Run.createdAt [tied 'a', tied 'b']) :=
    (lists_iff_clear (by decide) (by decide)).mp h
  have hExact : Exact Run.createdAt [tied 'a', tied 'b'] [tied 'a', tied 'b'] :=
    ⟨.refl _, pairwise_pair.mpr (le_refl (tied 'a').createdAt)⟩
  exact hClear 1 (mem_singleton_self _) (mem_singleton_self _)

structure OriginFilter where
  clientID : Text
  runID : Text
  projectID : Text
  limit : Int

variable (f : OriginFilter)

def OriginFilter.selects (run : Run) : Bool :=
  run.module = "benchmarks".toList && (f.clientID = [] || run.clientID = some f.clientID) &&
    (f.runID = [] || run.runID = some f.runID) && (f.projectID = [] || run.projectID = some f.projectID)

variable (c : Mark ×ₗ Mark)

def cursorMembers : List (Text × Json) :=
  [("created_at".toList, .string (ofLex c).1), ("id".toList, .string (ofLex c).2)]

def encodeCursor : Text :=
  Base64.encode (String.ofList (Json.object (cursorMembers c)).print).toUTF8.data.toList

def cursorOf (members : List (Text × Json)) : Option (Mark ×ₗ Mark) :=
  match members.lookup "created_at".toList, members.lookup "id".toList with
  | some (.string a), some (.string b) => if h : a ≠ [] ∧ b ≠ [] then some (toLex (⟨a, h.1⟩, ⟨b, h.2⟩)) else none
  | _, _ => none

/-- Read as the listing wrote it: keys in another case and texts that are not UTF-8 are refused. -/
def decodeCursor (text : Text) : Option (Mark ×ₗ Mark) := do
  let raw ← ByteArray.utf8Decode? ⟨(← Base64.decode text).toArray⟩
  match ← Json.readValue raw.size (Json.skipSpace raw.toList) with
  | (.object members, rest) => if Json.skipSpace rest = [] then cursorOf members else none
  | _ => none

def OriginFilter.pageSize : Int := if f.limit = 0 then 50 else f.limit

def listBenchmarkOrigin (E : Engine Run.position) (rows : List Run) (f : OriginFilter) (cursor : Option Text) :
    Except String (List Run × Option Text) :=
  if f.pageSize < 1 ∨ 200 < f.pageSize then .error "limit must be between 1 and 200"
  else
    match cursor.mapM decodeCursor with
    | none => .error "invalid cursor"
    | some c =>
      let limit := f.pageSize.toNat
      let found := (E.order (after Run.position (rows.filter f.selects) c)).take (limit + 1)
      if limit < found.length then .ok (found.take limit, found[limit - 1]?.map (encodeCursor ·.position))
      else .ok (found, none)

theorem decodeCursor_encodeCursor : decodeCursor (encodeCursor c) = some c := by
  have hCanon : (Json.object (cursorMembers c)).isCanonical = true :=
    Json.object_canonical.mpr ⟨by simp [cursorMembers, KeyMap.Ordered]; decide, by simp [cursorMembers, Json.isCanonical]⟩
  have hRead := Json.readValue_print _ _ hCanon Json.ends_nil (Nat.le_refl _)
  have hSpace := Json.skipSpace_print (.object (cursorMembers c)) []
  rw [append_nil] at hRead hSpace
  have hDecode (text : Text) : ByteArray.utf8Decode? ⟨text.utf8Encode.data⟩ = some text.toArray :=
    List.utf8Decode?_utf8Encode
  rw [decodeCursor, encodeCursor, Base64.decode_encode]
  simp only [String.toUTF8_eq_toByteArray, String.toByteArray_ofList, Option.bind_eq_bind,
    Option.bind_some, hDecode, size_toArray, hSpace, hRead]
  exact dif_pos ⟨(ofLex c).1.2, (ofLex c).2.2⟩

variable {E : Engine Run.position} {f : OriginFilter}

/-- The limit is zero, which stands for the default, or from 1 to 200. -/
def OriginFilter.Accepted (f : OriginFilter) : Prop := 1 ≤ f.pageSize ∧ f.pageSize ≤ 200

instance (f : OriginFilter) : Decidable f.Accepted := inferInstanceAs (Decidable (_ ∧ _))

theorem origin_eq_page (hLimit : f.Accepted) (c : Option (Mark ×ₗ Mark)) :
    (listBenchmarkOrigin E rows f (c.map encodeCursor)).toOption =
      (page E (rows.filter f.selects) f.pageSize.toNat 1 c).map fun p => (p.1, p.2.map encodeCursor) := by
  have hCursor : (c.map encodeCursor).mapM decodeCursor = some c := by
    cases c with
    | none => rfl
    | some c => simp [decodeCursor_encodeCursor]
  unfold OriginFilter.Accepted at hLimit
  rw [listBenchmarkOrigin, if_neg (by omega), hCursor, page]
  dsimp only
  have hPos : 0 < f.pageSize.toNat := by omega
  generalize E.order _ = found, f.pageSize.toNat = limit at hPos
  by_cases hMore : limit < found.length
  · have hLen : (found.take (limit + 1)).length = limit + 1 := length_take_of_le hMore
    rw [if_pos (by omega), if_pos (by omega), take_take, Nat.min_eq_left limit.le_succ,
      getElem?_take_of_lt (by omega), getElem?_eq_getElem (by omega)]
    rfl
  · rw [take_of_length_le (by omega), if_neg hMore, if_neg (by omega), take_of_length_le (by omega)]
    rfl

structure Ledger where
  rows : List Run
  unique : (rows.map Run.id).Nodup

theorem origin_runs_listed (E : Engine Run.position) (ledger : Ledger) (f : OriginFilter) (hLimit : f.Accepted) :
    ∃ fuel items, follow (fun cursor => (listBenchmarkOrigin E ledger.rows f cursor).toOption) fuel none = some items ∧
      Exact Run.position (ledger.rows.filter f.selects) items := by
  have hSize : 0 < f.pageSize.toNat := by unfold OriginFilter.Accepted at hLimit; omega
  have h := follow_exact_iff E (ledger.rows.filter f.selects) hSize (Nat.le_refl 1) none
  rw [after_none] at h
  have hUnique : (sortedKeys Run.position (ledger.rows.filter f.selects)).Nodup := by
    refine (perm_insertionSort _ _).nodup_iff.mpr (List.Nodup.of_map (fun p => (ofLex p).2) ?_)
    rw [map_map]
    exact ledger.unique.sublist (filter_sublist.map _)
  obtain ⟨fuel, items, hFollow, hExact⟩ := h.mpr fun n => disjoint_take_drop hUnique (Nat.le_refl _)
  exact ⟨fuel, items, (follow_encoded encodeCursor (origin_eq_page hLimit) fuel none).trans hFollow, hExact⟩

theorem origin_runs_listed_with_ties : ∃ fuel items, follow (fun cursor =>
        (listBenchmarkOrigin (.stable _) [tied 'a', tied 'b'] ⟨[], [], [], 1⟩ cursor).toOption) fuel none = some items ∧
      Exact Run.position [tied 'a', tied 'b'] items :=
  origin_runs_listed (.stable _) ⟨[tied 'a', tied 'b'], by simp [tied]⟩ ⟨[], [], [], 1⟩ (by decide)

end LocalModelWorks.Runs.Listing

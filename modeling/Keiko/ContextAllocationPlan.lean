import Keiko.ContextAllocation
import Keiko.Library.Greedy
import Keiko.Library.Store
import Mathlib.Algebra.BigOperators.Ring.Finset
import Mathlib.Data.List.Sigma
import Mathlib.Tactic.Linarith
import Mathlib.Tactic.Positivity

/-! The plan of the allocator. Every lane splits its items into those it includes and those
it excludes, the caps are kept by the lane and by the pool, and a total over the budget is
reported as such. -/
namespace Keiko.ContextBudget
open Keiko.Library List

def itemTokens (tokenAccounting : ContextTokenAccounting) (item : ContextLaneItemInput) : Nat :=
  countContextTokens item.text tokenAccounting

def itemCost (tokenAccounting : ContextTokenAccounting) (item : ContextLaneItemInput) : ℚ :=
  itemTokens tokenAccounting item

/-- A fill that keeps some of its items, drops the others and loses none. -/
structure Filled (tokenAccounting : ContextTokenAccounting) (items kept dropped :
    List ContextLaneItemInput) (fill : LaneFill) : Prop where
  included : fill.includedIds = kept.map ContextLaneItemInput.id
  excluded : fill.excludedIds = dropped.map ContextLaneItemInput.id
  tokens : fill.tokens = (kept.map (itemTokens tokenAccounting)).sum
  partition : (kept ++ dropped).Perm items

section Policies

variable {cmp : LocaleCompare} {cap : ℚ} {tokenAccounting : ContextTokenAccounting}
  {xs kept dropped : List ContextLaneItemInput}

theorem cast_itemTokens (kept : List ContextLaneItemInput) : (((kept.map (itemTokens tokenAccounting)).sum : Nat) : ℚ) =
      (kept.map (itemCost tokenAccounting)).sum := by
  rw [Nat.cast_list_sum,map_map]
  rfl

theorem includeAll_filled : Filled tokenAccounting xs xs [] (includeAll tokenAccounting xs) :=
  ⟨rfl,rfl,rfl,by simp⟩

theorem foldl_scoreStep (ordered : List ContextLaneItemInput) (included excluded : List Text) (tokens : Nat) :
    ordered.foldl (scoreStep cap tokenAccounting) ⟨included,excluded,tokens⟩ =
      ⟨included ++ (Greedy.admitted (itemCost tokenAccounting) cap tokens ordered).map ContextLaneItemInput.id,
        excluded ++ (Greedy.rejected (itemCost tokenAccounting) cap tokens ordered).map ContextLaneItemInput.id,
        tokens + ((Greedy.admitted (itemCost tokenAccounting) cap tokens ordered).map
          (itemTokens tokenAccounting)).sum⟩ := by
  induction ordered generalizing included excluded tokens with
  | nil => simp [Greedy.admitted,Greedy.rejected]
  | cons item ordered ih =>
    have cost : ((tokens + countContextTokens item.text tokenAccounting : Nat) : ℚ) =
        tokens + itemCost tokenAccounting item := Nat.cast_add _ _
    rw [foldl_cons]
    unfold Greedy.admitted Greedy.rejected
    by_cases fits : (tokens : ℚ) + itemCost tokenAccounting item ≤ cap
    · have step : scoreStep cap tokenAccounting ⟨included,excluded,tokens⟩ item =
          ⟨included ++ [item.id],excluded,tokens + countContextTokens item.text tokenAccounting⟩ := by
        simp only [scoreStep]
        rw [if_neg (by rw [cost]; exact not_lt.mpr fits)]
      rw [step,ih,if_pos fits,if_pos fits,cost]
      simp only [map_cons,sum_cons,append_assoc,singleton_append,itemTokens,add_assoc]
    · have step : scoreStep cap tokenAccounting ⟨included,excluded,tokens⟩ item =
          ⟨included,excluded ++ [item.id],tokens⟩ := by
        simp only [scoreStep]
        rw [if_pos (by rw [cost]; exact not_le.mp fits)]
      rw [step,ih,if_neg fits,if_neg fits]
      simp only [map_cons,append_assoc,singleton_append]

theorem selectScored_filled (cmp : LocaleCompare) (cap : ℚ)
    (tokenAccounting : ContextTokenAccounting) (xs : List ContextLaneItemInput)
    (reason : CompactionReason) :
    ∃ kept dropped, Filled tokenAccounting xs kept dropped
        (selectScoredByTokenBudget cmp cap tokenAccounting xs reason) ∧
      kept = Greedy.admitted (itemCost tokenAccounting) cap 0 (xs.mergeSort (scoreOrder cmp)) := by
  refine ⟨_,Greedy.rejected (itemCost tokenAccounting) cap 0
    (xs.mergeSort (scoreOrder cmp)),⟨?_,?_,?_,?_⟩,rfl⟩
  · simp [selectScoredByTokenBudget,foldl_scoreStep]
  · simp [selectScoredByTokenBudget,foldl_scoreStep]
  · simp [selectScoredByTokenBudget,foldl_scoreStep]
  · exact Greedy.admitted_perm.trans (mergeSort_perm xs _)

theorem foldl_newestStep (cap : ℚ) (tokenAccounting : ContextTokenAccounting)
    (entries : List (ContextLaneItemInput × Nat)) (indexes : List Nat) (tokens : Nat) :
    entries.foldl (newestStep cap tokenAccounting) ⟨indexes,tokens⟩ =
      let chosen := Greedy.admitted (fun e => itemCost tokenAccounting e.1) cap tokens entries
      ⟨indexes ++ chosen.map Prod.snd,tokens + ((chosen.map Prod.fst).map (itemTokens tokenAccounting)).sum⟩ := by
  induction entries generalizing indexes tokens with
  | nil => simp [Greedy.admitted]
  | cons e entries ih =>
    have cost : ((tokens + countContextTokens e.1.text tokenAccounting : Nat) : ℚ) =
        tokens + itemCost tokenAccounting e.1 := Nat.cast_add _ _
    rw [foldl_cons]
    unfold Greedy.admitted
    by_cases fits : (tokens : ℚ) + itemCost tokenAccounting e.1 ≤ cap
    · have step : newestStep cap tokenAccounting ⟨indexes,tokens⟩ e =
          ⟨indexes ++ [e.2],tokens + countContextTokens e.1.text tokenAccounting⟩ := by
        simp only [newestStep]
        rw [if_pos (by rw [cost]; exact fits)]
      rw [step,ih,if_pos fits,cost]
      simp only [map_cons,sum_cons,append_assoc,singleton_append,itemTokens,add_assoc]
    · have step : newestStep cap tokenAccounting ⟨indexes,tokens⟩ e = ⟨indexes,tokens⟩ := by
        simp only [newestStep]
        rw [if_neg (by rw [cost]; exact fits)]
      rw [step,ih,if_neg fits]

theorem selectNewest_filled (cap : ℚ) (tokenAccounting : ContextTokenAccounting) (xs : List ContextLaneItemInput) :
    ∃ kept dropped, Filled tokenAccounting xs kept dropped (selectNewestByTokenBudget cap tokenAccounting xs) ∧
      kept = (Greedy.admitted (itemCost tokenAccounting) cap 0 xs.reverse).reverse ∧
      kept.Sublist xs := by
  have filled := foldl_newestStep cap tokenAccounting xs.zipIdx.reverse [] 0
  obtain ⟨chosen,admits⟩ : ∃ chosen, chosen = Greedy.admitted (fun e : ContextLaneItemInput × Nat =>
    itemCost tokenAccounting e.1) cap 0 xs.zipIdx.reverse := ⟨_,rfl⟩
  simp only [Nat.cast_zero,← admits,nil_append,zero_add] at filled
  have places : (xs.zipIdx.map Prod.snd).Nodup := nodup_zipIdx_map_snd xs
  have part : chosen.reverse.Sublist xs.zipIdx := by
    have sublist : chosen.Sublist xs.zipIdx.reverse := admits ▸ Greedy.admitted_sublist
    simpa using sublist.reverse
  have marked : xs.zipIdx.filter (fun e => e.2 ∈ chosen.map Prod.snd) = chosen.reverse := by
    rw [← Greedy.filter_marked places part]
    apply filter_congr
    intro e _
    simp
  have fromNewest : chosen.map Prod.fst = Greedy.admitted (itemCost tokenAccounting) cap 0 xs.reverse := by
    have newest : xs.reverse = xs.zipIdx.reverse.map Prod.fst := by
      rw [map_reverse,zipIdx_map_fst]
    rw [newest,Greedy.admitted_map,admits]
  refine ⟨chosen.reverse.map Prod.fst,
    (xs.zipIdx.filter fun e => e.2 ∉ chosen.map Prod.snd).map Prod.fst,⟨?_,?_,?_,?_⟩,?_,?_⟩
  · simp only [selectNewestByTokenBudget,filled,marked,map_map]
    rfl
  · simp only [selectNewestByTokenBudget,filled,map_map]
    rfl
  · simp only [selectNewestByTokenBudget,filled]
    rw [map_reverse,map_reverse,sum_reverse]
  · rw [← map_append,← marked]
    have split := filter_append_perm (fun e : ContextLaneItemInput × Nat =>
      decide (e.2 ∈ chosen.map Prod.snd)) xs.zipIdx
    simpa [zipIdx_map_fst] using split.map Prod.fst
  · rw [← fromNewest,map_reverse]
  · simpa [zipIdx_map_fst] using part.map Prod.fst

theorem Filled.tokens_eq {fill : LaneFill} (filled : Filled tokenAccounting xs kept dropped fill) :
    (fill.tokens : ℚ) = (kept.map (itemCost tokenAccounting)).sum := by
  rw [filled.tokens,cast_itemTokens]

theorem admitted_tokens_le {fill : LaneFill} (room : 0 ≤ cap)
    (filled : Filled tokenAccounting xs kept dropped fill) (ordered : List ContextLaneItemInput)
    (greedy : (Greedy.admitted (itemCost tokenAccounting) cap 0 ordered).Perm kept) :
    (fill.tokens : ℚ) ≤ cap := by
  have bound : 0 + ((Greedy.admitted (itemCost tokenAccounting) cap 0 ordered).map
      (itemCost tokenAccounting)).sum ≤ cap := Greedy.admitted_cost_le room
  rw [zero_add,(greedy.map _).sum_eq] at bound
  rw [filled.tokens_eq]
  exact bound

theorem selectByEvictionPolicy_filled (cmp : LocaleCompare)
    (tokenAccounting : ContextTokenAccounting) (xs : List ContextLaneItemInput) (room : 0 ≤ cap) {eviction : ContextEvictionPolicy}
    (evictable : eviction ≠ .none) :
    ∃ kept dropped, Filled tokenAccounting xs kept dropped
        (selectByEvictionPolicy cmp cap tokenAccounting xs eviction) ∧
      ((selectByEvictionPolicy cmp cap tokenAccounting xs eviction).tokens : ℚ) ≤ cap ∧
      (eviction = .dropOldest → kept.Sublist xs ∧
        kept = (Greedy.admitted (itemCost tokenAccounting) cap 0 xs.reverse).reverse) := by
  cases eviction with
  | none => exact absurd rfl evictable
  | dropOldest =>
    obtain ⟨kept,dropped,filled,greedy,sublist⟩ := selectNewest_filled cap tokenAccounting xs
    have perm : (Greedy.admitted (itemCost tokenAccounting) cap 0 xs.reverse).Perm kept := by
      rw [greedy]
      exact (reverse_perm _).symm
    exact ⟨kept,dropped,filled,admitted_tokens_le room filled _ perm,fun _ => ⟨sublist,greedy⟩⟩
  | dropLowestScore =>
    obtain ⟨kept,dropped,filled,greedy⟩ := selectScored_filled cmp cap tokenAccounting xs .dropLowestScore
    exact ⟨kept,dropped,filled,admitted_tokens_le room filled _ (.of_eq greedy.symm),by simp⟩
  | summarizeThenDrop =>
    obtain ⟨kept,dropped,filled,greedy⟩ := selectScored_filled cmp cap tokenAccounting xs .dropLowestScore
    exact ⟨kept,dropped,filled,admitted_tokens_le room filled _ (.of_eq greedy.symm),by simp⟩

end Policies

section Lanes

variable (compare : LocaleCompare) (tokens : ContextTokenAccounting)

abbrev Entry := PlannedLane × LaneFill

def Entry.laneId (entry : Entry) : ContextLaneId := entry.1.row.laneId

def filledLanes : ℚ → List PlannedLane → List Entry
  | _, [] => []
  | remaining, lane :: lanes =>
    let fill := fillLane compare tokens remaining lane
    ⟨lane,fill⟩ :: filledLanes (remaining - fill.tokens) lanes

def entryTokens (entries : List Entry) : Nat := (entries.map fun entry => entry.2.tokens).sum

variable {compare tokens} {remaining : ℚ} {lanes : List PlannedLane}

theorem entryTokens_cons (e : Entry) (entries : List Entry) :
    entryTokens (e :: entries) = e.2.tokens + entryTokens entries := rfl

theorem entryTokens_append (a b : List Entry) :
    entryTokens (a ++ b) = entryTokens a + entryTokens b := by
  simp [entryTokens]

theorem map_fst_filledLanes (remaining : ℚ) (lanes : List PlannedLane) :
    (filledLanes compare tokens remaining lanes).map Prod.fst = lanes := by
  induction lanes generalizing remaining with
  | nil => rfl
  | cons lane lanes ih =>
    simp only [filledLanes,map_cons]
    rw [ih]

theorem foldl_fillStep (lanes : List PlannedLane) (fills : LaneFills) (remaining : ℚ) :
    lanes.foldl (fillStep compare tokens) ⟨fills,remaining⟩ =
      ⟨Store.writeAll Entry.laneId (fun e => some e.2) fills
          (filledLanes compare tokens remaining lanes),
        remaining - entryTokens (filledLanes compare tokens remaining lanes)⟩ := by
  induction lanes generalizing fills remaining with
  | nil => simp [filledLanes,entryTokens,Store.writeAll]
  | cons lane lanes ih =>
    rw [foldl_cons,fillStep,ih]
    simp only [filledLanes,entryTokens_cons,Nat.cast_add,sub_sub]
    rfl

theorem fillLane_filled (compare : LocaleCompare)
    (tokens : ContextTokenAccounting) (room : 0 ≤ remaining) (lane : PlannedLane)
    (evictable : isNonEvictable lane.row = false) :
    ∃ kept dropped, Filled tokens lane.items kept dropped
        (fillLane compare tokens remaining lane) ∧
      ((fillLane compare tokens remaining lane).tokens : ℚ) ≤ min lane.row.maxTokens remaining ∧
      (lane.row.eviction = .dropOldest → kept.Sublist lane.items ∧
        kept = (Greedy.admitted (itemCost tokens) (min lane.row.maxTokens remaining) 0
          lane.items.reverse).reverse) := by
  have capped : 0 ≤ min lane.row.maxTokens remaining := le_min lane.row.maxTokens_nonneg room
  have evicts : lane.row.eviction ≠ .none := by simpa [isNonEvictable] using evictable
  obtain ⟨kept,dropped,filled,bound,newest⟩ := selectByEvictionPolicy_filled compare
    tokens lane.items capped evicts
  refine ⟨kept,dropped,?_,?_,newest⟩
  · unfold fillLane
    simp only
    split
    · exact ⟨filled.included,filled.excluded,filled.tokens,filled.partition⟩
    · exact filled
  · unfold fillLane
    simp only
    split
    · exact bound
    · exact bound

theorem filledLanes_within (room : 0 ≤ remaining)
    (evictable : ∀ lane ∈ lanes, isNonEvictable lane.row = false) :
    (entryTokens (filledLanes compare tokens remaining lanes) : ℚ) ≤ remaining := by
  induction lanes generalizing remaining with
  | nil => simpa [filledLanes,entryTokens] using room
  | cons lane lanes ih =>
    obtain ⟨_,_,_,bound,_⟩ := fillLane_filled compare tokens room lane (evictable lane (by simp))
    have within := bound.trans (min_le_right _ _)
    have rest := ih (sub_nonneg.mpr within) fun lane mem => evictable lane (by simp [mem])
    simp only [filledLanes,entryTokens_cons,Nat.cast_add]
    linarith

theorem mem_filledLanes {e : Entry} (mem : e ∈ filledLanes compare tokens remaining lanes) :
    ∃ a rest, lanes = a ++ e.1 :: rest ∧ e.2 = fillLane compare tokens
        (remaining - entryTokens (filledLanes compare tokens remaining a))
        e.1 := by
  induction lanes generalizing remaining with
  | nil => simp [filledLanes] at mem
  | cons lane lanes ih =>
    rw [filledLanes] at mem
    rcases mem_cons.mp mem with rfl | post
    · exact ⟨[],lanes,rfl,by simp [filledLanes,entryTokens]⟩
    · obtain ⟨a,rest,split,fill⟩ := ih post
      refine ⟨lane :: a,rest,by rw [split]; rfl,?_⟩
      rw [fill]
      simp only [filledLanes,entryTokens_cons,Nat.cast_add,sub_sub]

theorem filledLanes_append (remaining : ℚ) (first second : List PlannedLane) :
    filledLanes compare tokens remaining (first ++ second) =
      filledLanes compare tokens remaining first ++ filledLanes compare tokens
          (remaining - entryTokens (filledLanes compare tokens remaining first))
          second := by
  induction first generalizing remaining with
  | nil => simp [filledLanes,entryTokens]
  | cons lane first ih =>
    simp only [cons_append,filledLanes,ih,entryTokens_cons,Nat.cast_add,sub_sub]

end Lanes

section Plan

variable (compare : LocaleCompare) (tokens : ContextTokenAccounting)
  (planned : List PlannedLane) (effectiveBudget : ℚ)

def reservedEntries : List Entry :=
  (planned.filter fun lane => isNonEvictable lane.row).map fun lane =>
    ⟨lane,includeAll tokens lane.items⟩

def evictionList : List PlannedLane :=
  (planned.filter fun lane => !isNonEvictable lane.row).mergeSort evictionOrder

def pool : ℚ := max 0 (effectiveBudget - entryTokens (reservedEntries tokens planned))

def evictedEntries : List Entry :=
  filledLanes compare tokens (pool tokens planned effectiveBudget) (evictionList planned)

def planEntries : List Entry :=
  reservedEntries tokens planned ++ evictedEntries compare tokens planned effectiveBudget

def allocated (entry : Entry) : AllocatedContextLane :=
  toAllocatedLane entry.laneId entry.2 entry.1.row.maxTokens

theorem foldl_reserveStep (fills : LaneFills) (reservedTokens : Nat) (overflow : Bool) (evictable : List PlannedLane) :
    planned.foldl (reserveStep tokens) ⟨fills,reservedTokens,overflow,evictable⟩ =
      ⟨Store.writeAll Entry.laneId (fun e => some e.2) fills (reservedEntries tokens planned),
        reservedTokens + entryTokens (reservedEntries tokens planned),
        overflow || (reservedEntries tokens planned).any fun e =>
          (e.2.tokens : ℚ) > e.1.row.maxTokens,
        evictable ++ planned.filter fun lane => !isNonEvictable lane.row⟩ := by
  induction planned generalizing fills reservedTokens overflow evictable with
  | nil => simp [reservedEntries,entryTokens,Store.writeAll]
  | cons lane planned ih =>
    rw [foldl_cons,reserveStep]
    cases reserved : isNonEvictable lane.row with
    | true =>
      rw [if_pos rfl,ih]
      simp only [reservedEntries,Bool.or_assoc,add_assoc]
      simp only [reserved,Bool.not_true,filter_cons,Bool.false_eq_true,if_false]
      rfl
    | false =>
      rw [if_neg Bool.false_ne_true,ih]
      simp [reservedEntries,reserved]

theorem buildLaneFills_eq : buildLaneFills compare tokens planned effectiveBudget =
      ⟨Store.writeAll Entry.laneId (fun e => some e.2) (fun _ => none)
          (planEntries compare tokens planned effectiveBudget),
        entryTokens (reservedEntries tokens planned),
        (reservedEntries tokens planned).any fun e =>
          (e.2.tokens : ℚ) > e.1.row.maxTokens⟩ := by
  unfold buildLaneFills fillEvictableLanes
  simp only [foldl_reserveStep,foldl_fillStep,nil_append,zero_add,Bool.false_or]
  congr 1
  funext laneId
  symm
  rw [planEntries,Store.writeAll_append]
  exact Store.writeAll_or ..

theorem map_fst_planEntries :
    ((planEntries compare tokens planned effectiveBudget).map Prod.fst).Perm planned := by
  have reserved : (reservedEntries tokens planned).map Prod.fst =
      planned.filter fun lane => isNonEvictable lane.row := by
    simp [reservedEntries,Function.comp_def]
  rw [planEntries,map_append,reserved,evictedEntries,map_fst_filledLanes]
  have sorted := mergeSort_perm (planned.filter fun lane => !isNonEvictable lane.row) evictionOrder
  exact (sorted.append_left _).trans (filter_append_perm _ planned)

theorem map_laneId_planEntries :
    ((planEntries compare tokens planned effectiveBudget).map Entry.laneId).Perm
      (planned.map fun lane => lane.row.laneId) := by
  have perm := (map_fst_planEntries compare tokens planned effectiveBudget).map
    fun lane => lane.row.laneId
  rw [map_map] at perm
  exact perm

end Plan

section Order

variable {budget : ContextBudget} {es : List Entry}

theorem mem_contextLaneIds (laneId : ContextLaneId) : laneId ∈ contextLaneIds := by
  cases laneId <;> simp [contextLaneIds]

theorem capForLane_eq {row : ContextLaneBudget}
    (unique : (budget.lanes.map ContextLaneBudget.laneId).Nodup) (mem : row ∈ budget.lanes) :
    capForLane budget row.laneId = row.maxTokens := by
  unfold capForLane
  cases hit : budget.lanes.find? fun other => other.laneId = row.laneId with
  | none =>
    have absent := find?_eq_none.mp hit row mem
    simp at absent
  | some other =>
    have same : other.laneId = row.laneId := by simpa using find?_some hit
    rw [inj_on_of_nodup_map unique (mem_of_find?_eq_some hit) mem same]

theorem nodup_contextLaneIds : contextLaneIds.Nodup := by
  decide

theorem map_laneId_orderResults (fills : LaneFills) : (orderResults budget fills).map AllocatedContextLane.laneId =
      contextLaneIds.filter fun laneId => (fills laneId).isSome := by
  unfold orderResults
  induction contextLaneIds with
  | nil => rfl
  | cons laneId laneIds ih =>
    cases read : fills laneId with
    | none => simp [read,ih]
    | some fill =>
      simp only [filterMap_cons,filter_cons,read,Option.map_some,Option.isSome_some,if_true,map_cons,ih]
      rfl

theorem orderResults_perm (nodup : (es.map Entry.laneId).Nodup)
    (capped : ∀ e ∈ es, capForLane budget e.laneId = e.1.row.maxTokens) :
    (orderResults budget (Store.writeAll Entry.laneId (fun e => some e.2) (fun _ => none)
      es)).Perm (es.map allocated) := by
  apply (perm_ext_iff_of_nodup ?_ ?_).mpr
  · intro lane
    simp only [orderResults,mem_filterMap,Option.map_eq_some_iff,mem_map]
    constructor
    · rintro ⟨laneId,_,fill,read,same⟩
      obtain ⟨e,mem,named,written⟩ := (Store.writeAll_eq_some_iff nodup).mp read
      refine ⟨e,mem,?_⟩
      rw [← same,allocated,← capped e mem,named,written]
    · rintro ⟨e,mem,same⟩
      refine ⟨e.laneId,mem_contextLaneIds _,e.2,?_,?_⟩
      · exact (Store.writeAll_eq_some_iff nodup).mpr ⟨e,mem,rfl,rfl⟩
      · rw [capped e mem]
        exact same
  · apply List.Nodup.of_map AllocatedContextLane.laneId
    rw [map_laneId_orderResults]
    exact nodup_contextLaneIds.filter _
  · apply List.Nodup.of_map AllocatedContextLane.laneId
    rw [map_map]
    exact nodup

end Order

section Shares

def filledBefore (row other : ContextLaneBudget) : Bool :=
  row.priority < other.priority || (row.priority = other.priority &&
    contextLaneIds.idxOf row.laneId < contextLaneIds.idxOf other.laneId)

def tokensWhere (budget : ContextBudget) (lanes : List AllocatedContextLane)
    (condition : ContextLaneBudget → Bool) : Nat :=
  ((lanes.filter fun lane => budget.lanes.any fun row =>
    row.laneId = lane.laneId && condition row).map AllocatedContextLane.estimatedTokens).sum

def reservedTokens (budget : ContextBudget) (lanes : List AllocatedContextLane) : Nat :=
  tokensWhere budget lanes isNonEvictable

def evictableTokens (budget : ContextBudget) (lanes : List AllocatedContextLane) : Nat :=
  tokensWhere budget lanes fun row => !isNonEvictable row

def remainingFor (input : AllocateContextInput) (lanes : List AllocatedContextLane) (row : ContextLaneBudget) : ℚ :=
  max 0 (input.profile.effectiveInputBudget - reservedTokens input.budget lanes) -
    tokensWhere input.budget lanes fun other => !isNonEvictable other && filledBefore other row

variable {budget : ContextBudget} {lanes : List AllocatedContextLane} {es : List Entry}

theorem tokensWhere_eq (condition : ContextLaneBudget → Bool)
    (unique : (budget.lanes.map ContextLaneBudget.laneId).Nodup)
    (rows : ∀ e ∈ es, e.1.row ∈ budget.lanes)
    (listed : lanes.Perm (es.map allocated)) :
    tokensWhere budget lanes condition = entryTokens (es.filter fun e => condition e.1.row) := by
  unfold tokensWhere
  rw [((listed.filter _).map _).sum_eq,filter_map,map_map]
  unfold entryTokens
  have same : es.filter ((fun lane : AllocatedContextLane => budget.lanes.any fun row =>
      row.laneId = lane.laneId && condition row) ∘ allocated) =
      es.filter fun e => condition e.1.row := by
    apply filter_congr
    intro e mem
    rw [Bool.eq_iff_iff]
    simp only [Function.comp_apply,any_eq_true,Bool.and_eq_true,decide_eq_true_eq]
    constructor
    · intro ⟨row,inside,named,holds⟩
      rw [← inj_on_of_nodup_map unique inside (rows e mem) named]
      exact holds
    · intro holds
      exact ⟨e.1.row,rows e mem,rfl,holds⟩
  rw [same]
  rfl

theorem evictionOrder_iff (a b : PlannedLane) : evictionOrder a b = true ↔
    a.row.priority < b.row.priority ∨ (a.row.priority = b.row.priority ∧
      contextLaneIds.idxOf a.row.laneId ≤ contextLaneIds.idxOf b.row.laneId) := by
  unfold evictionOrder
  by_cases same : a.row.priority = b.row.priority
  · simp [same]
  · have apart : a.row.priority - b.row.priority ≠ 0 := sub_ne_zero.mpr same
    simp only [apart,ne_eq,not_false_eq_true,if_true,decide_eq_true_eq,same,false_and,or_false,sub_nonpos]
    exact ⟨fun le => lt_of_le_of_ne le same,le_of_lt⟩

theorem pairwise_evictionList (planned : List PlannedLane) :
    (evictionList planned).Pairwise fun a b => evictionOrder a b = true := by
  apply pairwise_mergeSort
  · intro a b c first second
    rw [evictionOrder_iff] at first second ⊢
    rcases first with less | ⟨same,le⟩
    · rcases second with less' | ⟨same',_⟩
      · exact .inl (less.trans less')
      · exact .inl (less.trans_eq same')
    · rcases second with less' | ⟨same',le'⟩
      · exact .inl (same.trans_lt less')
      · exact .inr ⟨same.trans same',le.trans le'⟩
  · intro a b
    rw [Bool.or_eq_true,evictionOrder_iff,evictionOrder_iff]
    rcases lt_trichotomy a.row.priority b.row.priority with less | same | more
    · exact .inl (.inl less)
    · rcases le_total (contextLaneIds.idxOf a.row.laneId) (contextLaneIds.idxOf b.row.laneId) with le | ge
      · exact .inl (.inr ⟨same,le⟩)
      · exact .inr (.inr ⟨same.symm,ge⟩)
    · exact .inr (.inl more)

theorem idxOf_contextLaneIds {laneId other : ContextLaneId}
    (same : contextLaneIds.idxOf laneId = contextLaneIds.idxOf other) : laneId = other :=
  (idxOf_inj (mem_contextLaneIds laneId)).mp same

theorem filledBefore_split {planned a rest : List PlannedLane} {lane : PlannedLane}
    (nodup : (planned.map fun lane => lane.row.laneId).Nodup)
    (split : evictionList planned = a ++ lane :: rest) :
    (∀ other ∈ a, filledBefore other.row lane.row = true) ∧
      ∀ other ∈ lane :: rest, filledBefore other.row lane.row = false := by
  have sorted := pairwise_evictionList planned
  have sublist : ((evictionList planned).map fun lane => lane.row.laneId).Nodup := by
    have perm := (mergeSort_perm (planned.filter fun lane => !isNonEvictable lane.row)
      evictionOrder).map fun lane => lane.row.laneId
    exact perm.nodup_iff.mpr (nodup.sublist (filter_sublist.map _))
  rw [split] at sorted sublist
  constructor
  · intro other mem
    have pre := (pairwise_append.mp sorted).2.2 other mem lane (by simp)
    rw [map_append,nodup_append] at sublist
    have apart := sublist.2.2 _ (mem_map_of_mem mem) lane.row.laneId (by simp)
    rcases (evictionOrder_iff _ _).mp pre with less | ⟨same,le⟩
    · simp [filledBefore,less]
    · have strict := lt_of_le_of_ne le fun equal => apart (idxOf_contextLaneIds equal)
      simp [filledBefore,same,strict]
  · intro other mem
    have order : evictionOrder lane other = true := by
      rcases mem_cons.mp mem with rfl | post
      · rw [evictionOrder_iff]
        exact .inr ⟨rfl,le_refl _⟩
      · exact rel_of_pairwise_cons (pairwise_append.mp sorted).2.1 post
    rcases (evictionOrder_iff _ _).mp order with less | ⟨same,le⟩
    · simp [filledBefore,less.le,less.ne']
    · simp [filledBefore,same,le]

end Shares

section Result

/-- One lane of a result over its row: what it keeps and what it drops of the items given. -/
structure LanePlan (input : AllocateContextInput) (lanes : List AllocatedContextLane)
    (lane : AllocatedContextLane) (row : ContextLaneBudget)
    (items kept dropped : List ContextLaneItemInput) : Prop where
  row_mem : row ∈ input.budget.lanes
  named : row.laneId = lane.laneId
  given : itemsByLane input.lanes lane.laneId = some items
  included : lane.includedItemIds = kept.map ContextLaneItemInput.id
  excluded : lane.excludedItemIds = dropped.map ContextLaneItemInput.id
  tokens : lane.estimatedTokens = (kept.map (itemTokens (resolveContextTokenAccounting input.profile))).sum
  partition : (kept ++ dropped).Perm items
  reserved : row.eviction = .none → kept = items ∧ dropped = []
  capped : row.eviction ≠ .none → (lane.estimatedTokens : ℚ) ≤ row.maxTokens
  newest : row.eviction = .dropOldest → kept.Sublist items ∧
    kept = (Greedy.admitted (itemCost (resolveContextTokenAccounting input.profile))
      (min row.maxTokens (remainingFor input lanes row)) 0 items.reverse).reverse

/-- The whole plan: every planned lane once, and the pool kept or its overflow reported. -/
structure Plan (input : AllocateContextInput) (result : AllocateContextResult) : Prop where
  lanes : (result.lanes.map AllocatedContextLane.laneId).Perm ((planLanes input).map fun lane => lane.row.laneId)
  lane : ∀ lane ∈ result.lanes, ∃ row items kept dropped, LanePlan input result.lanes lane row items kept dropped
  evictable : (evictableTokens input.budget result.lanes : ℚ) ≤
    max 0 (input.profile.effectiveInputBudget - reservedTokens input.budget result.lanes)
  sum : result.totalEstimatedTokens = (result.lanes.map AllocatedContextLane.estimatedTokens).sum
  total : (result.totalEstimatedTokens : ℚ) ≤ input.profile.effectiveInputBudget ∨
    result.diagnostics.budgetPressure = .exceeded

variable {localeCompare : LocaleCompare} {input : AllocateContextInput}
  {tokenAccounting : ContextTokenAccounting} {planned : List PlannedLane} {lane : PlannedLane} {e : Entry}

theorem mem_planLanes (mem : lane ∈ planLanes input) :
    lane.row ∈ input.budget.lanes ∧ itemsByLane input.lanes lane.row.laneId = some lane.items := by
  unfold planLanes at mem
  obtain ⟨row,inside,joined⟩ := mem_filterMap.mp mem
  obtain ⟨items,read,rfl⟩ := Option.map_eq_some_iff.mp joined
  exact ⟨inside,read⟩

theorem planLanes_distinct (unique : (input.budget.lanes.map ContextLaneBudget.laneId).Nodup) :
    ((planLanes input).map fun lane => lane.row.laneId).Nodup := by
  have rows : ((planLanes input).map PlannedLane.row).Sublist input.budget.lanes := by
    unfold planLanes
    induction input.budget.lanes with
    | nil => exact List.Sublist.refl []
    | cons row rows ih =>
      cases read : itemsByLane input.lanes row.laneId with
      | none =>
        rw [filterMap_cons_none (by rw [read]; rfl)]
        exact ih.cons row
      | some items =>
        rw [filterMap_cons_some (by rw [read]; rfl),map_cons]
        exact ih.cons_cons row
  have ids := unique.sublist (rows.map ContextLaneBudget.laneId)
  rw [map_map] at ids
  exact ids

abbrev accounting (input : AllocateContextInput) : ContextTokenAccounting :=
  resolveContextTokenAccounting input.profile

abbrev entriesOf (localeCompare : LocaleCompare) (input : AllocateContextInput) : List Entry :=
  planEntries localeCompare (accounting input) (planLanes input) input.profile.effectiveInputBudget

theorem entriesOf_mem (mem : e ∈ entriesOf localeCompare input) : e.1 ∈ planLanes input := by
  apply (map_fst_planEntries localeCompare (accounting input) (planLanes input)
    input.profile.effectiveInputBudget).subset
  exact mem_map_of_mem mem

theorem entriesOf_rows (mem : e ∈ entriesOf localeCompare input) :
    e.1.row ∈ input.budget.lanes := (mem_planLanes (entriesOf_mem mem)).1

theorem allocateContext_lanes (localeCompare : LocaleCompare)
    (unique : (input.budget.lanes.map ContextLaneBudget.laneId).Nodup) :
    (allocateContext localeCompare input).lanes.Perm ((entriesOf localeCompare input).map allocated) := by
  simp only [allocateContext,buildLaneFills_eq]
  apply orderResults_perm
  · exact (map_laneId_planEntries ..).nodup_iff.mpr (planLanes_distinct unique)
  · intro e mem
    exact capForLane_eq unique (entriesOf_rows mem)

theorem reservedEntries_evict (mem : e ∈ reservedEntries tokenAccounting planned) :
    isNonEvictable e.1.row = true ∧ e.2 = includeAll tokenAccounting e.1.items := by
  obtain ⟨lane,inside,rfl⟩ := mem_map.mp mem
  exact ⟨(mem_filter.mp inside).2,rfl⟩

theorem evictionList_evict
    (mem : lane ∈ evictionList planned) : isNonEvictable lane.row = false := by
  have inside := mem_mergeSort.mp mem
  simpa using (mem_filter.mp inside).2

theorem evictedEntries_evict {effectiveBudget : ℚ}
    (mem : e ∈ evictedEntries localeCompare tokenAccounting planned effectiveBudget) :
    isNonEvictable e.1.row = false := by
  have lanes : (evictedEntries localeCompare tokenAccounting planned effectiveBudget).map Prod.fst =
      evictionList planned := map_fst_filledLanes _ _
  exact evictionList_evict (lanes ▸ mem_map_of_mem mem)

theorem filter_entriesOf (condition : ContextLaneBudget → Bool) : (entriesOf localeCompare input).filter
        (fun e => !isNonEvictable e.1.row && condition e.1.row) =
      (evictedEntries localeCompare (accounting input) (planLanes input)
        input.profile.effectiveInputBudget).filter fun e => condition e.1.row := by
  rw [entriesOf,planEntries,filter_append,filter_eq_nil_iff.mpr,nil_append]
  · apply filter_congr
    intro e mem
    rw [evictedEntries_evict mem]
    rfl
  · intro e mem
    simp [(reservedEntries_evict mem).1]

variable (localeCompare) (unique : (input.budget.lanes.map ContextLaneBudget.laneId).Nodup)

include unique

theorem reservedTokens_eq : reservedTokens input.budget (allocateContext localeCompare input).lanes =
      entryTokens (reservedEntries (accounting input) (planLanes input)) := by
  rw [reservedTokens,tokensWhere_eq _ unique (fun _ => entriesOf_rows)
    (allocateContext_lanes localeCompare unique),entriesOf,planEntries,filter_append,
    filter_eq_self.mpr fun e mem => (reservedEntries_evict mem).1,
    filter_eq_nil_iff.mpr fun e mem => by simp [evictedEntries_evict mem],
    append_nil]

theorem evictableTokens_eq : evictableTokens input.budget (allocateContext localeCompare input).lanes =
      entryTokens (evictedEntries localeCompare (accounting input) (planLanes input)
        input.profile.effectiveInputBudget) := by
  rw [evictableTokens,tokensWhere_eq _ unique (fun _ => entriesOf_rows) (allocateContext_lanes localeCompare unique)]
  have all := @filter_entriesOf localeCompare input fun _ => true
  simp only [Bool.and_true,filter_true] at all
  rw [all]

theorem remainingFor_eq {a rest : List PlannedLane}
    (split : evictionList (planLanes input) = a ++ lane :: rest) :
    remainingFor input (allocateContext localeCompare input).lanes lane.row =
      pool (accounting input) (planLanes input) input.profile.effectiveInputBudget -
        entryTokens (filledLanes localeCompare (accounting input)
          (pool (accounting input) (planLanes input) input.profile.effectiveInputBudget) a) := by
  obtain ⟨ahead,behind⟩ := filledBefore_split (planLanes_distinct unique) split
  rw [remainingFor,reservedTokens_eq localeCompare unique,tokensWhere_eq _ unique
    (fun _ => entriesOf_rows) (allocateContext_lanes localeCompare unique),
    filter_entriesOf fun other => filledBefore other lane.row,
    evictedEntries,split,filledLanes_append,filter_append]
  rw [filter_eq_self.mpr,filter_eq_nil_iff.mpr,append_nil]
  · rfl
  · intro e mem
    have inside : e.1 ∈ lane :: rest := by
      rw [← @map_fst_filledLanes localeCompare (accounting input) _ (lane :: rest)]
      exact mem_map_of_mem mem
    simp [behind e.1 inside]
  · intro e mem
    have inside : e.1 ∈ a := by
      rw [← @map_fst_filledLanes localeCompare (accounting input) _ a]
      exact mem_map_of_mem mem
    exact ahead e.1 inside

theorem allocateContext_lane {lane : AllocatedContextLane} (mem : lane ∈ (allocateContext localeCompare input).lanes) :
    ∃ row items kept dropped,
      LanePlan input (allocateContext localeCompare input).lanes lane row items kept dropped := by
  obtain ⟨e,inside,rfl⟩ :=
    mem_map.mp ((allocateContext_lanes localeCompare unique).subset mem)
  obtain ⟨row_mem,given⟩ := mem_planLanes (entriesOf_mem inside)
  rcases mem_append.mp inside with reserved | evicted
  · obtain ⟨keeps,fill⟩ := reservedEntries_evict reserved
    have stays : e.1.row.eviction = .none := by simpa [isNonEvictable] using keeps
    have filled : Filled (accounting input) e.1.items e.1.items [] e.2 :=
      fill ▸ includeAll_filled
    exact ⟨e.1.row,e.1.items,e.1.items,[],row_mem,rfl,given,filled.included,
      filled.excluded,filled.tokens,filled.partition,fun _ => ⟨rfl,rfl⟩,
      fun evicts => absurd stays evicts,by simp [stays]⟩
  · obtain ⟨a,rest,split,fill⟩ := mem_filledLanes evicted
    have leaves := evictedEntries_evict evicted
    have evicts : e.1.row.eviction ≠ .none := by simpa [isNonEvictable] using leaves
    have room := remainingFor_eq localeCompare unique split
    rw [← room] at fill
    have within : 0 ≤ remainingFor input (allocateContext localeCompare input).lanes
        e.1.row := by
      rw [room,sub_nonneg]
      apply filledLanes_within (le_max_left _ _)
      intro other ahead
      apply @evictionList_evict (planLanes input)
      rw [split]
      exact mem_append_left _ ahead
    obtain ⟨kept,dropped,filled,bound,newest⟩ := fillLane_filled localeCompare (accounting input) within e.1 leaves
    rw [← fill] at filled bound
    exact ⟨e.1.row,e.1.items,kept,dropped,row_mem,rfl,given,filled.included,
      filled.excluded,filled.tokens,filled.partition,fun stays => absurd stays evicts,
      fun _ => bound.trans (min_le_left _ _),newest⟩

theorem evictable_le : (evictableTokens input.budget (allocateContext localeCompare input).lanes : ℚ) ≤
      max 0 (input.profile.effectiveInputBudget -
        reservedTokens input.budget (allocateContext localeCompare input).lanes) := by
  rw [evictableTokens_eq localeCompare unique,reservedTokens_eq localeCompare unique]
  apply filledLanes_within (le_max_left _ _)
  intro lane mem
  exact evictionList_evict mem

theorem allocateContext_total : (allocateContext localeCompare input).totalEstimatedTokens =
      reservedTokens input.budget (allocateContext localeCompare input).lanes +
        evictableTokens input.budget (allocateContext localeCompare input).lanes := by
  rw [reservedTokens_eq localeCompare unique,evictableTokens_eq localeCompare unique,← entryTokens_append]
  change ((allocateContext localeCompare input).lanes.map AllocatedContextLane.estimatedTokens).sum = _
  rw [((allocateContext_lanes localeCompare unique).map _).sum_eq,map_map]
  rfl

theorem allocateContext_pressure : ((allocateContext localeCompare input).totalEstimatedTokens : ℚ) ≤
        input.profile.effectiveInputBudget ∨
      (allocateContext localeCompare input).diagnostics.budgetPressure = .exceeded := by
  by_cases exceeds : (reservedTokens input.budget (allocateContext localeCompare input).lanes : ℚ) >
    input.profile.effectiveInputBudget
  · right
    rw [reservedTokens_eq localeCompare unique] at exceeds
    simp only [allocateContext,buildLaneFills_eq]
    rw [if_pos (by simp [exceeds])]
  · left
    have pool := evictable_le localeCompare unique
    have room := not_lt.mp exceeds
    rw [max_eq_right (sub_nonneg.mpr room)] at pool
    rw [allocateContext_total localeCompare unique,Nat.cast_add]
    linarith

theorem allocateContext_plan : Plan input (allocateContext localeCompare input) where
  lanes := by
    have listed := (allocateContext_lanes localeCompare unique).map AllocatedContextLane.laneId
    rw [map_map] at listed
    exact listed.trans (map_laneId_planEntries ..)
  lane _ member := allocateContext_lane localeCompare unique member
  evictable := evictable_le localeCompare unique
  sum := rfl
  total := allocateContext_pressure localeCompare unique

omit unique

def exampleRow (laneId : ContextLaneId) (maxTokens : ℕ) (eviction : ContextEvictionPolicy) :
    ContextLaneBudget :=
  ⟨laneId,1,maxTokens,eviction,Nat.cast_nonneg maxTokens⟩

def exampleInput : AllocateContextInput where
  profile := ⟨20,"default".toList,none⟩
  budget := ⟨[exampleRow .userTask 10 .none,exampleRow .toolObservations 8 .dropOldest]⟩
  lanes := [⟨.toolObservations,[⟨['a'],"old".toList,1⟩,⟨['b'],"new".toList,1⟩]⟩,
    ⟨.userTask,[⟨['c'],"task".toList,1⟩]⟩]

theorem allocateContext_plan_example :
    Plan exampleInput (allocateContext (fun _ _ => 0) exampleInput) := by
  apply allocateContext_plan
  decide

end Result

end Keiko.ContextBudget

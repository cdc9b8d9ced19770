/-
# Paths in merged layers

What is found under a path of keys in a map that has been laid over another.  As long as both layers
have a map there, the two are merged; where they part for the first time, the upper layer decides if
it has the key, and the lower one if it has not.
-/
import Mathlib.Data.List.Induction
import Mathlib.Tactic.Lemma
import TreeDiff.Proofs.Merging
import TreeDiff.Proofs.SameKeys

namespace TreeDiff.Value

variable {key k v w : Value} {p q r : List Value} {lower upper entries l u : List (Value × Value)}

/-! ## One level -/

/-- A key is found in merged entries where it is found in both layers. -/
lemma find?_mergeEntries (h : IsDict upper) :
    find? key (mergeEntries lower upper) = overlaid (find? key upper) (find? key lower) := by
  induction upper generalizing lower with
  | nil => rfl
  | cons entry rest ih =>
    obtain ⟨k, v⟩ := entry
    rw [mergeEntries, ih h.tail, find?_put, find?_cons]
    by_cases hk : sameKey k key = true
    · -- the entry is the only one under its key, so the rest does not touch it
      have hrest : find? key rest = none := by rw [← find?_congr hk, h.find?_tail]
      rw [if_pos hk, if_pos hk, hrest, ← find?_congr hk]
      cases find? k lower <;> rfl
    · rw [if_neg hk, if_neg hk]

/-- The keys of the lower layer come first, and then the new ones of the upper layer. -/
lemma map_fst_mergeEntries (h : IsDict upper) : (mergeEntries lower upper).map Prod.fst =
    lower.map Prod.fst ++ (upper.map Prod.fst).filter fun k => (find? k lower).isNone := by
  induction upper generalizing lower with
  | nil => simp [mergeEntries]
  | cons entry rest ih =>
    obtain ⟨k, v⟩ := entry
    have hrest : ∀ a ∈ rest.map Prod.fst, sameKey k a = false := (List.pairwise_cons.1 h.distinct).1
    rw [mergeEntries, ih h.tail, map_fst_put, List.append_assoc, List.map_cons, List.filter_cons]
    -- whether a later key is new does not depend on what has been put under this one
    have hfilter (w : Value) :
        (rest.map Prod.fst).filter (fun a => (find? a (put k w lower)).isNone) =
        (rest.map Prod.fst).filter fun a => (find? a lower).isNone :=
      List.filter_congr fun a ha => by rw [find?_put, hrest a ha, if_neg Bool.false_ne_true]
    rw [hfilter]
    split <;> rfl

/-- Nothing changes if the lower layer has what the upper one would put there. -/
lemma mergeEntries_of_kept
    (h : ∀ e ∈ upper, ∃ below, find? e.1 lower = some below ∧ laidOver e.2 below = below) :
    mergeEntries lower upper = lower := by
  induction upper with
  | nil => rfl
  | cons entry rest ih =>
    obtain ⟨k, v⟩ := entry
    obtain ⟨⟨below, hfind, hkept⟩, hrest⟩ := List.forall_mem_cons.1 h
    rw [mergeEntries]
    simp only [hfind, hkept]
    rw [put_of_find?_eq_some hfind, ih hrest]

/-- Entries under new keys are added at the end. -/
lemma mergeEntries_of_new (hdict : IsDict upper) (h : ∀ e ∈ upper, find? e.1 lower = none) :
    mergeEntries lower upper = lower ++ upper := by
  induction upper generalizing lower with
  | nil => simp [mergeEntries]
  | cons entry rest ih =>
    obtain ⟨k, v⟩ := entry
    obtain ⟨hnone, hrest⟩ := List.forall_mem_cons.1 h
    rw [mergeEntries]
    simp only [hnone]
    rw [ih hdict.tail, put_of_find?_eq_none hnone, List.append_assoc, List.singleton_append]
    intro e he
    have hne : sameKey k e.1 = false :=
      (List.pairwise_cons.1 hdict.distinct).1 e.1 (List.mem_map_of_mem he)
    rw [find?_put, hne, if_neg Bool.false_ne_true, hrest e he]

lemma IsDict.merge (hlower : IsDict lower) (hupper : IsDict upper) :
    IsDict (mergeEntries lower upper) := by
  induction upper generalizing lower with
  | nil => exact hlower
  | cons entry rest ih =>
    rw [mergeEntries]
    exact ih (hlower.put (hupper.isKey entry.1 List.mem_cons_self)) hupper.tail

/-! ## Nested dictionaries -/

/-- A value whose maps are dictionaries, down to the first value that is no map. -/
inductive Nested : Value → Prop
  | map {entries : List (Value × Value)} (hdict : IsDict entries)
      (hvalues : ∀ e ∈ entries, Nested e.2) : Nested (.map entries)
  | leaf {v : Value} (hleaf : ∀ entries, v ≠ .map entries) : Nested v

namespace Nested

lemma isDict (h : Nested (.map entries)) : IsDict entries := by
  cases h with
  | map hdict _ => exact hdict
  | leaf hleaf => exact absurd rfl (hleaf entries)

lemma of_mem (h : Nested (.map entries)) {e : Value × Value} (he : e ∈ entries) : Nested e.2 := by
  cases h with
  | map _ hvalues => exact hvalues e he
  | leaf hleaf => exact absurd rfl (hleaf entries)

lemma of_find? (h : Nested (.map entries)) (hv : find? k entries = some v) : Nested v := by
  obtain ⟨k', hmem, -⟩ := exists_mem_of_find? hv
  exact h.of_mem hmem

end Nested

/-- A leaf is laid over anything as it is. -/
lemma laidOver_leaf (h : ∀ entries, v ≠ .map entries) : laidOver v w = v := by
  cases v <;> first | rfl | exact absurd rfl (h _)

/-- A value laid over itself is itself. -/
lemma laidOver_self (h : Nested v) : laidOver v v = v := by
  induction h with
  | map hdict hvalues ih =>
    rw [laidOver, mergeEntries_of_kept fun e he => ⟨e.2, hdict.find?_of_mem he, ih e he⟩]
  | leaf hleaf => exact laidOver_leaf hleaf

/-- A value that is laid over something a second time changes nothing more. -/
lemma laidOver_laidOver (h : Nested v) : laidOver v (laidOver v w) = laidOver v w := by
  induction h generalizing w with
  | @map entries hdict hvalues ih =>
    cases w with
    | map below =>
      rw [laidOver, laidOver, mergeEntries_of_kept]
      intro e he
      rw [find?_mergeEntries hdict, hdict.find?_of_mem he]
      cases find? e.1 below with
      | none => exact ⟨e.2, rfl, laidOver_self (hvalues e he)⟩
      | some w => exact ⟨laidOver e.2 w, rfl, ih e he⟩
    | _ => exact laidOver_self (Nested.map hdict hvalues)
  | leaf hleaf => rw [laidOver_leaf hleaf, laidOver_leaf hleaf]

/-- Merged layers are nested dictionaries again, over which another layer can be laid. -/
lemma Nested.laidOver (hv : Nested v) (hw : Nested w) : Nested (laidOver v w) := by
  induction hv generalizing w with
  | @map entries hdict hvalues ih =>
    cases w with
    | map below =>
      have hmerged : IsDict (mergeEntries below entries) := hw.isDict.merge hdict
      refine Nested.map hmerged fun ⟨key, x⟩ he => ?_
      have hfind := hmerged.find?_of_mem he
      rw [find?_mergeEntries hdict] at hfind
      cases hup : find? key entries with
      | none =>
        rw [hup] at hfind
        exact hw.of_find? hfind
      | some v =>
        obtain ⟨k, hmem, -⟩ := exists_mem_of_find? hup
        cases hlow : find? key below with
        | none =>
          rw [hup, hlow] at hfind
          cases hfind
          exact hvalues (k, _) hmem
        | some w =>
          rw [hup, hlow] at hfind
          cases hfind
          exact ih (k, v) hmem (hw.of_find? hlow)
    | _ => exact Nested.map hdict hvalues
  | leaf hleaf =>
    rw [laidOver_leaf hleaf]
    exact Nested.leaf hleaf

/-! ## Paths -/

/-- What is found under a path of keys. -/
def atPath : List Value → Value → Option Value
  | [], v => some v
  | key :: rest, .map entries => (find? key entries).bind (atPath rest)
  | _ :: _, _ => none

lemma atPath_append : atPath (p ++ q) v = (atPath p v).bind (atPath q) := by
  induction p generalizing v with
  | nil => rfl
  | cons key rest ih =>
    cases v with
    | map entries =>
      rw [List.cons_append, atPath, atPath, Option.bind_assoc]
      exact congrArg _ (funext fun _ => ih)
    | _ => rfl

/-- Whether both layers have a map under a path. -/
def BothMaps (p : List Value) (v w : Value) : Prop :=
  (∃ l, atPath p v = some (.map l)) ∧ ∃ u, atPath p w = some (.map u)

lemma exists_map_of_atPath (h : atPath p v = some (.map l)) : ∃ entries, v = .map entries := by
  cases p with
  | nil => exact ⟨l, Option.some.inj h⟩
  | cons key rest =>
    cases v with
    | map entries => exact ⟨entries, rfl⟩
    | _ => cases h

lemma Nested.of_atPath (h : Nested v) (hw : atPath p v = some w) : Nested w := by
  induction p generalizing v with
  | nil =>
    cases hw
    exact h
  | cons key rest ih =>
    cases v with
    | map entries =>
      rw [atPath, Option.bind_eq_some_iff] at hw
      obtain ⟨inner, hfind, hw⟩ := hw
      exact ih (h.of_find? hfind) hw
    | _ => cases hw

/-- Where both layers have a map, the two have been merged. -/
lemma atPath_mergeEntries_of_both (h : Nested (.map upper))
    (hlower : atPath p (.map lower) = some (.map l))
    (hupper : atPath p (.map upper) = some (.map u)) :
    atPath p (.map (mergeEntries lower upper)) = some (.map (mergeEntries l u)) := by
  induction p generalizing lower upper with
  | nil =>
    cases hlower
    cases hupper
    rfl
  | cons key rest ih =>
    rw [atPath, Option.bind_eq_some_iff] at hlower hupper
    obtain ⟨v, hv, hlower⟩ := hlower
    obtain ⟨w, hw, hupper⟩ := hupper
    obtain ⟨below, rfl⟩ := exists_map_of_atPath hlower
    obtain ⟨above, rfl⟩ := exists_map_of_atPath hupper
    rw [atPath, find?_mergeEntries h.isDict, hv, hw]
    exact ih (h.of_find? hw) hlower hupper

/-- A value that is found, or else one from below, where not both are maps. -/
lemma overlaid_eq_or {found below : Option Value}
    (h : ¬ ((∃ l, below = some (.map l)) ∧ ∃ u, found = some (.map u))) :
    overlaid found below = found.or below := by
  cases found with
  | none => rfl
  | some v =>
    cases below with
    | none => rfl
    | some w =>
      rw [overlaid, Option.some_or]
      cases v with
      | map u =>
        cases w with
        | map l => exact absurd ⟨⟨l, rfl⟩, ⟨u, rfl⟩⟩ h
        | _ => rfl
      | _ => rfl

lemma atPath_snoc (h : atPath q v = some (.map l)) : atPath (q ++ [key]) v = find? key l := by
  rw [atPath_append, h, Option.bind_some, atPath]
  cases find? key l <;> rfl

/-- Where the layers part, the upper one decides if it has the key, and else the lower one. -/
lemma atPath_mergeEntries_of_not_both (h : Nested (.map upper))
    (hboth : BothMaps q (.map lower) (.map upper))
    (hpart : ¬ BothMaps (q ++ [key]) (.map lower) (.map upper)) :
    atPath (q ++ key :: r) (.map (mergeEntries lower upper)) =
      ((atPath (q ++ [key]) (.map upper)).or (atPath (q ++ [key]) (.map lower))).bind
        (atPath r) := by
  obtain ⟨⟨l, hl⟩, u, hu⟩ := hboth
  rw [BothMaps, atPath_snoc hl, atPath_snoc hu] at hpart
  rw [atPath_append, atPath_mergeEntries_of_both h hl hu, atPath_snoc hl, atPath_snoc hu,
    ← overlaid_eq_or hpart, ← find?_mergeEntries (h.of_atPath hu).isDict]
  rfl

/-- Two maps have a map under every key of a path, or they part at one of them. -/
lemma bothMaps_or_parts (hboth : BothMaps [] v w) (p : List Value) :
    BothMaps p v w ∨
      ∃ q key r, p = q ++ key :: r ∧ BothMaps q v w ∧ ¬ BothMaps (q ++ [key]) v w := by
  induction p using List.reverseRecOn with
  | nil => exact Or.inl hboth
  | append_singleton p key ih =>
    rcases ih with hp | ⟨q, k, r, rfl, hq, hpart⟩
    · by_cases hkey : BothMaps (p ++ [key]) v w
      · exact Or.inl hkey
      · exact Or.inr ⟨p, key, [], rfl, hp, hkey⟩
    · exact Or.inr ⟨q, k, r ++ [key], by simp, hq, hpart⟩

/-- What is found in a layer that has been laid over another, and what laying it there does not
change. -/
structure MergeLaws (lower upper : List (Value × Value)) : Prop where
  /-- Where both layers have a map under every key of a path, there is what they are merged to. -/
  both (p : List Value) (l u : List (Value × Value))
    (hlower : atPath p (.map lower) = some (.map l))
    (hupper : atPath p (.map upper) = some (.map u)) :
    atPath p (.map (mergeEntries lower upper)) = some (.map (mergeEntries l u))
  /-- Below the key at which the layers part, there is what the upper layer has under it, or what
  the lower one has if the upper one has nothing there. -/
  parted (q : List Value) (key : Value) (r : List Value)
    (hboth : BothMaps q (.map lower) (.map upper))
    (hpart : ¬ BothMaps (q ++ [key]) (.map lower) (.map upper)) :
    atPath (q ++ key :: r) (.map (mergeEntries lower upper)) =
      ((atPath (q ++ [key]) (.map upper)).or (atPath (q ++ [key]) (.map lower))).bind (atPath r)
  /-- One or the other holds of every path. -/
  paths (p : List Value) : BothMaps p (.map lower) (.map upper) ∨ ∃ q key r, p = q ++ key :: r ∧
    BothMaps q (.map lower) (.map upper) ∧ ¬ BothMaps (q ++ [key]) (.map lower) (.map upper)
  /-- The keys are those of the lower layer and then the new ones of the upper layer. -/
  keys : (mergeEntries lower upper).map Prod.fst = lower.map Prod.fst ++
    (upper.map Prod.fst).filter fun key => (find? key lower).isNone
  over_nothing : mergeEntries [] upper = upper
  under_nothing : mergeEntries lower [] = lower
  over_itself : mergeEntries upper upper = upper
  twice : mergeEntries (mergeEntries lower upper) upper = mergeEntries lower upper

/-- **What is found in merged layers.**  Where both layers have a map under every key of a path,
there is what they are merged to.  On any other path they part at some key, and there the upper
layer decides if it has the key.  So the keys are those of the lower layer and then the new ones of
the upper layer; an empty layer changes nothing, nor does a layer that is laid over itself or laid
over the same one twice. -/
theorem atPath_mergeEntries (h : Nested (.map upper)) : MergeLaws lower upper where
  both _ _ _ := atPath_mergeEntries_of_both h
  parted _ _ _ := atPath_mergeEntries_of_not_both h
  paths := bothMaps_or_parts ⟨⟨lower, rfl⟩, upper, rfl⟩
  keys := map_fst_mergeEntries h.isDict
  over_nothing := mergeEntries_of_new h.isDict fun _ _ => rfl
  under_nothing := rfl
  over_itself := Value.map.inj (laidOver_self h)
  twice := Value.map.inj (laidOver_laidOver (w := .map lower) h)

/-- What a user has set: a section and a plain value. -/
def userLayer : List (Value × Value) :=
  [(.text "log", .map [(.text "level", .int 1), (.text "sink", .null)]), (.text "diff", .int 2)]

/-- What is set for a project: a section in the place of the plain value, and less in the other
one. -/
def projectLayer : List (Value × Value) :=
  [(.text "diff", .map [(.text "depth", .int 3)]), (.text "new", .null),
    (.text "log", .map [(.text "level", .int 4)])]

/-- One text with a plain value under it. -/
lemma nested_singleton {name : String} (h : ∀ entries, v ≠ .map entries) :
    Nested (.map [(.text name, v)]) := by
  refine .map ⟨fun k hk => ?_, List.pairwise_singleton _ _⟩ fun e he => ?_
  · rw [List.mem_singleton.1 hk]
    rfl
  · rw [List.mem_singleton.1 he]
    exact .leaf h

lemma nested_projectLayer : Nested (.map projectLayer) := by
  refine .map ⟨by decide, by decide⟩ fun e he => ?_
  simp only [projectLayer, List.mem_cons, List.not_mem_nil, or_false] at he
  rcases he with rfl | rfl | rfl
  · exact nested_singleton nofun
  · exact .leaf nofun
  · exact nested_singleton nofun

theorem atPath_layers :
    Nested (.map projectLayer) ∧
    atPath [.text "log"] (.map (mergeEntries userLayer projectLayer)) =
      some (.map [(.text "level", .int 4), (.text "sink", .null)]) ∧
    atPath [.text "log", .text "sink"] (.map (mergeEntries userLayer projectLayer)) = some .null ∧
    atPath [.text "diff", .text "depth"] (.map (mergeEntries userLayer projectLayer)) =
      some (.int 3) ∧
    (mergeEntries userLayer projectLayer).map Prod.fst = [.text "log", .text "diff", .text "new"] ∧
    mergeEntries projectLayer projectLayer = projectLayer := by
  have hlaws : MergeLaws userLayer projectLayer := atPath_mergeEntries nested_projectLayer
  refine ⟨nested_projectLayer, hlaws.both [.text "log"] _ _ rfl rfl,
    hlaws.parted [.text "log"] (.text "sink") [] ?_ ?_,
    hlaws.parted [] (.text "diff") [.text "depth"] ?_ ?_, hlaws.keys.trans rfl, hlaws.over_itself⟩
  · exact ⟨⟨_, rfl⟩, _, rfl⟩
  · rintro ⟨⟨l, hl⟩, -⟩
    cases hl
  · exact ⟨⟨_, rfl⟩, _, rfl⟩
  · rintro ⟨⟨l, hl⟩, -⟩
    cases hl

end TreeDiff.Value

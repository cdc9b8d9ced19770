/-
# Keys of documents

A map that is read from a document gives each text once as a key: an entry that comes again replaces
the earlier one.  This holds of the map that is the document and of the maps under its keys.
-/
import TreeDiff.Proofs.Merging
import TreeDiff.Proofs.Reading
import TreeDiff.Yaml.Document

namespace TreeDiff

namespace Yaml

namespace Built

variable {α β : Type} {parts : List (Built α)}

lemma both_eq_ok {a : Built α} {b : Built β} {p : α × β} (h : both a b = .ok p) :
    a = .ok p.1 ∧ b = .ok p.2 := by
  cases a with
  | error v => cases b <;> cases h
  | ok x =>
    cases b with
    | error w => cases h
    | ok y =>
      cases h
      exact ⟨rfl, rfl⟩

lemma mem_of_all {as : List α} (h : all parts = .ok as) {a : α} (ha : a ∈ as) : .ok a ∈ parts := by
  induction parts generalizing as with
  | nil =>
    cases h
    cases ha
  | cons part rest ih =>
    obtain ⟨⟨x, xs⟩, hboth, rfl⟩ := map_eq_ok_iff.1 h
    obtain ⟨hpart, hrest⟩ := both_eq_ok hboth
    rcases List.mem_cons.1 ha with rfl | ha
    · exact hpart ▸ List.mem_cons_self
    · exact List.mem_cons_of_mem _ (ih hrest ha)

end Built

/-! ## What stands under the keys -/

/-- An entry whose value is what some node denotes. -/
def BuiltEntry.IsWritten (e : BuiltEntry) : Prop := ∃ tag node, e.value = content tag node

mutual

lemma isWritten_of_layers {start : Mark} : ∀ {entries : List (Node × Node)} {l : Layers},
    layers start entries = .ok l → ∀ e ∈ l.all, e.IsWritten
  | [], l, h => by
    cases h
    exact fun _ he => absurd he List.not_mem_nil
  | (key, value) :: rest, l, h => by
    rw [layers] at h
    split at h
    · obtain ⟨more, hmore, h⟩ := exists_of_bind_eq_ok h
      obtain ⟨below, hbelow, h⟩ := exists_of_bind_eq_ok h
      cases h
      intro e he
      rw [Layers.all, List.append_assoc] at he
      rcases List.mem_append.1 he with he | he
      · exact isWritten_of_mergedEntries hmore e he
      · exact isWritten_of_layers hbelow e he
    · obtain ⟨below, hbelow, h⟩ := exists_of_bind_eq_ok h
      cases h
      intro e he
      rcases List.mem_append.1 he with he | he
      · exact isWritten_of_layers hbelow e (List.mem_append_left _ he)
      · rcases List.mem_cons.1 he with rfl | he
        · exact ⟨value.tag, value, rfl⟩
        · exact isWritten_of_layers hbelow e (List.mem_append_right _ he)

lemma isWritten_of_mergedEntries {start : Mark} : ∀ {node : Node} {more : List BuiltEntry},
    mergedEntries start node = .ok more → ∀ e ∈ more, e.IsWritten
  | .mapping _ entries itemStart, more, h => by
    rw [mergedEntries] at h
    obtain ⟨l, hl, rfl⟩ := map_eq_ok_iff.1 h
    exact isWritten_of_layers hl
  | .sequence _ items _, more, h => by
    rw [mergedEntries] at h
    exact isWritten_of_mergedItems h
  | .again true _, more, h => by
    cases h
    exact fun _ he => absurd he List.not_mem_nil
  | .again false _, more, h => by cases h
  | .scalar _ _ _, more, h => by cases h

lemma isWritten_of_mergedItems {start : Mark} : ∀ {items : List Node} {more : List BuiltEntry},
    mergedItems start items = .ok more → ∀ e ∈ more, e.IsWritten
  | [], more, h => by
    cases h
    exact fun _ he => absurd he List.not_mem_nil
  | .mapping _ entries itemStart :: rest, more, h => by
    rw [mergedItems] at h
    obtain ⟨l, hl, h⟩ := exists_of_bind_eq_ok h
    obtain ⟨later, hlater, h⟩ := exists_of_bind_eq_ok h
    cases h
    intro e he
    rcases List.mem_append.1 he with he | he
    · exact isWritten_of_mergedItems hlater e he
    · exact isWritten_of_layers hl e he
  | .again true _ :: rest, more, h => by
    rw [mergedItems] at h
    exact isWritten_of_mergedItems h
  | .again false _ :: rest, more, h => by cases h
  | .scalar _ _ _ :: rest, more, h => by cases h
  | .sequence _ _ _ :: rest, more, h => by cases h

end

/-! ## Maps -/

/-- Putting pairs into a map keeps its texts distinct, and its values come from both. -/
lemma foldl_put (pairs present : List (Value × Value)) (h : (Value.textKeys present).Nodup) :
    (Value.textKeys (pairs.foldl (fun present (key, value) => Value.put key value present)
      present)).Nodup ∧
    ∀ p ∈ pairs.foldl (fun present (key, value) => Value.put key value present) present,
      ∃ q ∈ present ++ pairs, q.2 = p.2 := by
  induction pairs generalizing present with
  | nil => exact ⟨h, fun p hp => ⟨p, List.mem_append_left _ hp, rfl⟩⟩
  | cons pair rest ih =>
    obtain ⟨key, value⟩ := pair
    obtain ⟨hnodup, hmem⟩ := ih (Value.put key value present) (Value.nodup_textKeys_put h)
    refine ⟨hnodup, fun p hp => ?_⟩
    obtain ⟨q, hq, heq⟩ := hmem p hp
    rcases List.mem_append.1 hq with hq | hq
    · rcases Value.mem_put hq with hq | ⟨hvalue, -⟩
      · exact ⟨q, List.mem_append_left _ hq, heq⟩
      · exact ⟨(key, value), List.mem_append_right _ List.mem_cons_self, hvalue.symm.trans heq⟩
    · exact ⟨q, List.mem_append_right _ (List.mem_cons_of_mem _ hq), heq⟩

/-- The entries of a map have distinct texts as keys, and their values are what the entries of the
mapping denote. -/
lemma entriesOf_eq_ok {start : Mark} {entries : List BuiltEntry} {es : List (Value × Value)}
    (h : entriesOf start entries = .ok es) :
    (Value.textKeys es).Nodup ∧ ∀ p ∈ es, ∃ e ∈ entries, e.value = .ok p.2 := by
  obtain ⟨pairs, hpairs, rfl⟩ := map_eq_ok_iff.1 h
  obtain ⟨hnodup, hmem⟩ := foldl_put pairs [] List.nodup_nil
  refine ⟨hnodup, fun p hp => ?_⟩
  obtain ⟨q, hq, heq⟩ := hmem p hp
  obtain ⟨e, he, hboth⟩ := List.mem_map.1 (Built.mem_of_all hpairs hq)
  exact ⟨e, he, heq ▸ (Built.both_eq_ok hboth).2⟩

variable {tag : String} {node : Node} {entries : List (Value × Value)} {v : Value}

lemma ne_map_of_readMoment {text : List Char} : readMoment text ≠ .ok (.map entries) := by
  intro h
  simp only [readMoment] at h
  repeat' split at h
  all_goals cases h

/-- A text denotes no map. -/
lemma ne_map_of_value {kind : ScalarKind} {start : Mark} {text : String} :
    kind.value start text ≠ .ok (.map entries) := by
  intro h
  cases kind with
  | null => cases h
  | str => cases h
  | timestamp => exact ne_map_of_readMoment (mapError_eq_ok_iff.1 h)
  | _ =>
    obtain ⟨_, -, hv⟩ := map_eq_ok_iff.1 h
    cases hv

/-- Only a mapping denotes a map, and it has the entries that are written in it. -/
lemma exists_written_of_content (h : content tag node = .ok (.map entries)) :
    ∃ start, ∃ written : List BuiltEntry, (∀ e ∈ written, e.IsWritten) ∧
      entriesOf start written = .ok entries := by
  cases node with
  | again isMapping start => cases h
  | scalar own text start =>
    rw [content] at h
    split at h
    · exact absurd h ne_map_of_value
    all_goals cases h
  | sequence own items start =>
    rw [content] at h
    split at h
    · cases h
    · obtain ⟨_, -, hv⟩ := map_eq_ok_iff.1 h
      cases hv
    · cases h
    · cases h
    · obtain ⟨_, -, hv⟩ := map_eq_ok_iff.1 h
      cases hv
    · obtain ⟨_, -, hv⟩ := map_eq_ok_iff.1 h
      cases hv
    · cases h
  | mapping own written start =>
    rw [content] at h
    split at h
    · obtain ⟨text, -, hvalue⟩ := exists_of_bind_eq_ok h
      exact absurd hvalue ne_map_of_value
    · cases h
    · obtain ⟨es, hes, hv⟩ := map_eq_ok_iff.1 (mapError_eq_ok_iff.1 h)
      cases hv
      obtain ⟨l, hl, hentries⟩ := exists_of_bind_eq_ok hes
      exact ⟨start, l.all, isWritten_of_layers hl, hentries⟩
    · obtain ⟨_, -, hv⟩ := map_eq_ok_iff.1 (mapError_eq_ok_iff.1 h)
      cases hv
    all_goals cases h

/-- A map in a document has distinct texts as keys, and so have the maps under them. -/
lemma nodup_of_content (h : content tag node = .ok (.map entries)) :
    (Value.textKeys entries).Nodup ∧ ∀ p ∈ entries, ∀ inner, p.2 = .map inner →
      (Value.textKeys inner).Nodup := by
  obtain ⟨start, written, hwritten, hentries⟩ := exists_written_of_content h
  obtain ⟨hnodup, hmem⟩ := entriesOf_eq_ok hentries
  refine ⟨hnodup, fun p hp inner hinner => ?_⟩
  obtain ⟨e, he, hvalue⟩ := hmem p hp
  obtain ⟨tag', node', hcontent⟩ := hwritten e he
  rw [hcontent, hinner] at hvalue
  obtain ⟨start', written', -, hentries'⟩ := exists_written_of_content hvalue
  exact (entriesOf_eq_ok hentries').1

lemma nodup_of_readBytes {bytes : List UInt8} (h : readBytes bytes = .ok (.map entries)) :
    (Value.textKeys entries).Nodup ∧ ∀ p ∈ entries, ∀ inner, p.2 = .map inner →
      (Value.textKeys inner).Nodup := by
  rw [readBytes] at h
  split at h
  · cases h
  · rw [readText] at h
    split at h
    · cases h
    · split at h
      · cases h
      · next root hroot =>
        cases root with
        | none => cases h
        | some node => exact nodup_of_content (mapError_eq_ok_iff.1 (mapError_eq_ok_iff.1 h))

end Yaml

end TreeDiff

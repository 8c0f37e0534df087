import Mathlib.Algebra.GroupWithZero.Nat
import Arborist.Cache.Basic

/-!
The lists a cache is made of.  Storing an entry and setting a flag work on the first place of their
key; removing an entry takes its key out of both lists.
-/

namespace Arborist.TreeCache

variable {entries : List CacheEntry} {key : String} {entry : CacheEntry}

def totalBytes (entries : List CacheEntry) : Nat := (entries.map fun entry => entry.source.size).sum

def keys (entries : List CacheEntry) : List String := entries.map CacheEntry.key

def flagKeys (flags : List (String × Bool)) : List String := flags.map Prod.fst

@[simp] theorem totalBytes_nil : totalBytes [] = 0 := rfl

@[simp] theorem totalBytes_cons (entry : CacheEntry) (rest : List CacheEntry) :
    totalBytes (entry :: rest) = entry.source.size + totalBytes rest := by
  simp [totalBytes]

@[simp] theorem keys_nil : keys [] = [] := rfl

@[simp] theorem keys_cons (entry : CacheEntry) (rest : List CacheEntry) :
    keys (entry :: rest) = entry.key :: keys rest := rfl

@[simp] theorem flagKeys_nil : flagKeys [] = [] := rfl

@[simp] theorem flagKeys_cons (key : String) (flag : Bool) (rest : List (String × Bool)) :
    flagKeys ((key, flag) :: rest) = key :: flagKeys rest := rfl

theorem totalBytes_eq_of_perm {first second : List CacheEntry} (same : first.Perm second) :
    totalBytes first = totalBytes second :=
  (same.map _).sum_nat

theorem mem_keys :
    key ∈ keys entries ↔ ∃ entry ∈ entries, entry.key = key := by
  simp [keys]

theorem find?_eq_none_iff {cache : TreeCache} :
    cache.find? key = none ↔ key ∉ keys cache.entries := by
  simp only [find?, List.find?_eq_none, mem_keys, beq_iff_eq]
  constructor
  · rintro absent ⟨entry, member, same⟩
    exact absent entry member same
  · intro absent entry member same
    exact absent ⟨entry, member, same⟩

theorem find?_eq_some_mem {cache : TreeCache} (found : cache.find? key = some entry) :
    entry ∈ cache.entries ∧ entry.key = key := by
  refine ⟨List.mem_of_find?_eq_some found, ?_⟩
  simpa using List.find?_some found

/-! Storing. -/

theorem keys_store (entry : CacheEntry) (entries : List CacheEntry) :
    keys (store entry entries) =
      if entry.key ∈ keys entries then keys entries else keys entries ++ [entry.key] := by
  induction entries with
  | nil => simp [store]
  | cons other rest ih =>
      by_cases same : other.key = entry.key
      · simp [store, same]
      · have different : entry.key ≠ other.key := fun equal => same equal.symm
        simp only [store, beq_iff_eq, same, if_false, keys_cons, List.mem_cons, different, false_or, ih]
        split <;> simp

theorem mem_store {entry other : CacheEntry} (member : other ∈ store entry entries) :
    other = entry ∨ other ∈ entries := by
  induction entries with
  | nil => simpa [store] using member
  | cons head rest ih =>
      unfold store at member
      split at member
      · rcases List.mem_cons.mp member with rfl | inRest
        · exact .inl rfl
        · exact .inr (List.mem_cons_of_mem head inRest)
      · rcases List.mem_cons.mp member with rfl | inRest
        · exact .inr List.mem_cons_self
        · rcases ih inRest with rfl | old
          · exact .inl rfl
          · exact .inr (List.mem_cons_of_mem head old)

theorem totalBytes_store_of_not_mem (fresh : entry.key ∉ keys entries) :
    totalBytes (store entry entries) = totalBytes entries + entry.source.size := by
  induction entries with
  | nil => simp [store]
  | cons other rest ih =>
      simp only [keys_cons, List.mem_cons, not_or] at fresh
      have different : other.key ≠ entry.key := fun equal => fresh.1 equal.symm
      simp only [store, beq_iff_eq, different, if_false, totalBytes_cons, ih fresh.2]
      omega

theorem totalBytes_store_of_find {entry old : CacheEntry}
    (found : entries.find? (fun other => other.key == entry.key) = some old) :
    totalBytes (store entry entries) + old.source.size = totalBytes entries + entry.source.size := by
  induction entries with
  | nil => simp at found
  | cons other rest ih =>
      by_cases same : other.key = entry.key
      · simp only [List.find?_cons, same, beq_self_eq_true, Option.some.injEq] at found
        subst found
        simp only [store, same, beq_self_eq_true, if_true, totalBytes_cons]
        omega
      · have differs : (other.key == entry.key) = false := by simpa using same
        simp only [List.find?_cons, differs] at found
        have onRest := ih found
        simp only [store, differs, Bool.false_eq_true, if_false, totalBytes_cons]
        omega

theorem flagKeys_setFlag (key : String) (flag : Bool) (flags : List (String × Bool)) :
    flagKeys (setFlag key flag flags) =
      if key ∈ flagKeys flags then flagKeys flags else flagKeys flags ++ [key] := by
  induction flags with
  | nil => simp [setFlag]
  | cons head rest ih =>
      obtain ⟨other, old⟩ := head
      by_cases same : other = key
      · simp [setFlag, same]
      · have different : key ≠ other := fun equal => same equal.symm
        simp only [setFlag, beq_iff_eq, same, if_false, flagKeys_cons, List.mem_cons, different, false_or,
          ih]
        split <;> simp

/-! Removing. -/

theorem keys_filter_ne (entries : List CacheEntry) (key : String) :
    keys (entries.filter fun entry => entry.key != key) = (keys entries).filter (· != key) := by
  simp [keys, List.filter_map, Function.comp_def]

theorem flagKeys_filter_ne (flags : List (String × Bool)) (key : String) :
    flagKeys (flags.filter fun (other, _) => other != key) = (flagKeys flags).filter (· != key) := by
  simp [flagKeys, List.filter_map, Function.comp_def]

theorem lookup_filter_ne (flags : List (String × Bool)) (gone key : String) :
    (flags.filter fun (other, _) => other != gone).lookup key =
      if key = gone then none else flags.lookup key := by
  induction flags with
  | nil => simp
  | cons head rest ih =>
      obtain ⟨other, flag⟩ := head
      by_cases dropped : other = gone
      · subst dropped
        simp only [List.filter_cons, bne_self_eq_false, Bool.false_eq_true, if_false, ih, List.lookup_cons]
        by_cases same : key = other
        · simp [same]
        · simp [same, beq_false_of_ne same]
      · simp only [List.filter_cons, bne_iff_ne, ne_eq, dropped, not_false_eq_true, if_true,
          List.lookup_cons, ih]
        by_cases same : key = other
        · subst same
          simp [dropped]
        · simp [beq_false_of_ne same]

theorem totalBytes_filter_ne (distinct : (keys entries).Nodup) (member : entry ∈ entries) :
    totalBytes (entries.filter fun other => other.key != entry.key) + entry.source.size =
      totalBytes entries := by
  induction entries with
  | nil => simp at member
  | cons head rest ih =>
      simp only [keys_cons, List.nodup_cons] at distinct
      rcases List.mem_cons.mp member with rfl | inRest
      · have unchanged : rest.filter (fun other => other.key != entry.key) = rest := by
          rw [List.filter_eq_self]
          intro other inside
          simp only [bne_iff_ne]
          exact fun same => distinct.1 (mem_keys.mpr ⟨other, inside, same⟩)
        simp only [List.filter_cons, bne_self_eq_false, Bool.false_eq_true, if_false, unchanged,
          totalBytes_cons]
        omega
      · have different : head.key ≠ entry.key :=
          fun same => distinct.1 (mem_keys.mpr ⟨entry, inRest, same.symm⟩)
        have onRest := ih distinct.2 inRest
        simp only [List.filter_cons, bne_iff_ne, ne_eq, different, not_false_eq_true, if_true,
          totalBytes_cons]
        omega

end Arborist.TreeCache

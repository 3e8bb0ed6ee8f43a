import Poseidon.Bloom.Entries
import Poseidon.Bloom.Resizing

/-!
# Removal against addition

A removal looks for the entries that the item would be given at the present size. The entries the
item was given when it was added have been renamed by every resize since, so the two agree for
certain only if nothing was resized in between. A ledger beside the filter notes for every entry
the item it was made for; a removal undoes an addition exactly if each entry noted for the item is
one of those looked for.
-/

namespace Poseidon

theorem map_snd_sub_map {α β : Type*} [DecidableEq α] [DecidableEq β] {name : α}
    {noted : Multiset (α × β)} {taken : Multiset β}
    (hothers : ∀ note ∈ noted, note.1 ≠ name → note.2 ∉ taken) :
    (noted - taken.map fun value => (name, value)).map Prod.snd =
      noted.map Prod.snd - taken := by
  induction taken using Multiset.induction generalizing noted with
  | empty => rw [Multiset.map_zero, tsub_zero, tsub_zero]
  | cons value taken ih =>
      have herase : (noted.erase (name, value)).map Prod.snd =
          (noted.map Prod.snd).erase value := by
        by_cases hmem : (name, value) ∈ noted
        · exact Multiset.map_erase_of_mem Prod.snd noted hmem
        · have habsent : value ∉ noted.map Prod.snd := by
            intro hvalue
            obtain ⟨note, hnote, rfl⟩ := Multiset.mem_map.mp hvalue
            by_cases hname : note.1 = name
            · exact hmem (hname ▸ hnote)
            · exact hothers note hnote hname (Multiset.mem_cons_self _ _)
          rw [Multiset.erase_of_notMem hmem, Multiset.erase_of_notMem habsent]
      have hrest : ∀ note ∈ noted.erase (name, value), note.1 ≠ name → note.2 ∉ taken := by
        intro note hnote hname hmem
        exact hothers note (Multiset.mem_of_mem_erase hnote) hname (Multiset.mem_cons_of_mem hmem)
      rw [Multiset.map_cons, Multiset.sub_cons, ih hrest, herase, Multiset.sub_cons]

open ElasticBloomFilter

/-- A filter with the item that each of its entries was made for. -/
structure Ledger where
  filter : ElasticBloomFilter
  owned : Multiset (Bytes × Nat × Nat)

namespace Ledger

variable (H : HashFn)

def create (size hashCount : Nat) (omega : Rat) (fpBits : Nat) : Ledger :=
  ⟨ElasticBloomFilter.create size hashCount omega fpBits, 0⟩

def insert (ledger : Ledger) (item : Bytes) : Ledger where
  filter := ledger.filter.insert H item
  owned := ledger.owned +
    ((ledger.filter.insert H item).entries - ledger.filter.entries).map fun pair => (item, pair)

def erase (ledger : Ledger) (item : Bytes) : Ledger where
  filter := ledger.filter.erase H item
  owned := ledger.owned -
    (ledger.filter.hashPairs H item : Multiset (Nat × Nat)).map fun pair => (item, pair)

def expand (ledger : Ledger) : Ledger where
  filter := ledger.filter.expand
  owned := ledger.owned.map fun entry => (entry.1, spread ledger.filter.buckets.length entry.2)

def compress (ledger : Ledger) : Ledger :=
  if ledger.filter.bucketCount < 2 then ledger
  else
    { filter := ledger.filter.compress
      owned := (ledger.owned.filter fun entry =>
          entry.2.2 < ledger.filter.bucketCount / 2 * 2).map
        fun entry => (entry.1, fold (ledger.filter.bucketCount / 2) entry.2) }

def change (given : Comparisons) (ledger : Ledger) : Change → Ledger
  | .add item =>
      let inserted := ledger.insert H item
      if given.above inserted.filter then inserted.expand else inserted
  | .remove item =>
      let erased := ledger.erase H item
      if given.below erased.filter then erased.compress else erased
  | .expand => ledger.expand
  | .compress => ledger.compress

variable {given : Comparisons}

variable (ledger : Ledger)

theorem filter_compress : ledger.compress.filter = ledger.filter.compress := by
  by_cases hsmall : ledger.filter.bucketCount < 2
  · rw [compress, if_pos hsmall, ElasticBloomFilter.compress, if_pos hsmall]
  · rw [compress, if_neg hsmall]

theorem filter_change (change : Change) :
    (ledger.change H given change).filter = ledger.filter.changeGiven H given change := by
  cases change with
  | add item =>
      simp only [Ledger.change, changeGiven, addGiven]
      exact apply_ite Ledger.filter _ _ _
  | remove item =>
      simp only [Ledger.change, changeGiven, removeGiven]
      refine (apply_ite Ledger.filter _ _ _).trans ?_
      rw [filter_compress]
      rfl
  | expand => rfl
  | compress => exact ledger.filter_compress

theorem filter_run (changes : List Change) :
    (Runs.run (change H given) ledger changes).filter =
      Runs.run (changeGiven H given) ledger.filter changes := by
  induction changes generalizing ledger with
  | nil => rfl
  | cons first changes ih =>
      rw [Runs.run_cons, Runs.run_cons, ih, filter_change]

/-! ### The ledger accounts for the filter -/

structure Accounts (ledger : Ledger) : Prop where
  wellFormed : ledger.filter.WellFormed
  entries_eq : ledger.owned.map Prod.snd = ledger.filter.entries

/-- No entry that a removal looks for was made for another item. -/
def Apart (ledger : Ledger) : Change → Prop
  | .remove item => ∀ entry ∈ ledger.owned, entry.1 ≠ item →
      entry.2 ∉ ledger.filter.hashPairs H item
  | _ => True

instance (ledger : Ledger) : ∀ change, Decidable (ledger.Apart H change)
  | .remove _ => inferInstanceAs (Decidable (∀ entry ∈ ledger.owned, _))
  | .add _ | .expand | .compress => isTrue trivial

theorem accounts_create {size : Nat} (hsize : 0 < size) (hashCount : Nat) (omega : Rat)
    (fpBits : Nat) : (create size hashCount omega fpBits).Accounts :=
  ⟨WellFormed.create hsize hashCount omega fpBits,
    (entries_create size hashCount omega fpBits).symm⟩

variable {ledger : Ledger} {changes : List Change} {fpBits : Nat}

section

variable (haccounts : ledger.Accounts)

include haccounts

theorem Accounts.insert (item : Bytes) : (ledger.insert H item).Accounts := by
  have hwf := haccounts.wellFormed
  have hle : ledger.filter.entries ≤ (ledger.filter.insert H item).entries :=
    entries_le_foldl_insertPair (hwf.forall_hashPairs H item)
  refine ⟨hwf.insert H item, ?_⟩
  change (ledger.owned + _).map Prod.snd = (ledger.filter.insert H item).entries
  rw [Multiset.map_add, haccounts.entries_eq, Multiset.map_map]
  change ledger.filter.entries + Multiset.map id _ = _
  rw [Multiset.map_id, add_tsub_cancel_of_le hle]

theorem Accounts.erase {item : Bytes} (hapart : ledger.Apart H (.remove item)) :
    (ledger.erase H item).Accounts := by
  have hwf := haccounts.wellFormed
  refine ⟨hwf.erase H item, ?_⟩
  calc (ledger.erase H item).owned.map Prod.snd
      = ledger.owned.map Prod.snd - ledger.filter.hashPairs H item := map_snd_sub_map hapart
    _ = ledger.filter.entries - ledger.filter.hashPairs H item := by rw [haccounts.entries_eq]
    _ = (ledger.erase H item).filter.entries :=
        (entries_foldl_erasePair (hwf.forall_hashPairs H item)).symm

theorem Accounts.expand : ledger.expand.Accounts := by
  refine ⟨haccounts.wellFormed.expand, ?_⟩
  change (ledger.owned.map _).map Prod.snd = ledger.filter.expand.entries
  rw [entries_expand, ← haccounts.entries_eq, Multiset.map_map, Multiset.map_map]
  rfl

theorem Accounts.compress : ledger.compress.Accounts := by
  by_cases hsmall : ledger.filter.bucketCount < 2
  · rw [Ledger.compress, if_pos hsmall]
    exact haccounts
  · rw [Ledger.compress, if_neg hsmall]
    refine ⟨haccounts.wellFormed.compress, ?_⟩
    change (Multiset.map _ (Multiset.filter _ ledger.owned)).map Prod.snd =
      ledger.filter.compress.entries
    rw [entries_compress haccounts.wellFormed hsmall, ← haccounts.entries_eq,
      Multiset.filter_map, Multiset.map_map, Multiset.map_map]
    rfl

theorem Accounts.change {change : Change} (hapart : ledger.Apart H change) :
    (ledger.change H given change).Accounts := by
  cases change with
  | add item =>
      have hinserted := haccounts.insert H item
      simp only [Ledger.change]
      split_ifs
      · exact hinserted.expand
      · exact hinserted
  | remove item =>
      have herased := haccounts.erase H hapart
      simp only [Ledger.change]
      split_ifs
      · exact herased.compress
      · exact herased
  | expand => exact haccounts.expand
  | compress => exact haccounts.compress

end

/-! ### What is noted for one item -/

def ownedBy (ledger : Ledger) (item : Bytes) : Multiset (Nat × Nat) :=
  (ledger.owned.filter fun entry => entry.1 = item).map Prod.snd

/-- Every entry made for the item is one that its removal looks for. -/
def Complete (ledger : Ledger) : Change → Prop
  | .remove item => ledger.ownedBy item ≤ (ledger.filter.hashPairs H item : Multiset (Nat × Nat))
  | _ => True

instance (ledger : Ledger) : ∀ change, Decidable (ledger.Complete H change)
  | .remove _ => inferInstanceAs (Decidable (_ ≤ _))
  | .add _ | .expand | .compress => isTrue trivial

def Owns (ledger : Ledger) (item : Bytes) : Prop :=
  ∃ entry ∈ ledger.owned, entry.1 = item

theorem count_ownedBy (ledger : Ledger) (item : Bytes) (pair : Nat × Nat) :
    (ledger.ownedBy item).count pair = ledger.owned.count (item, pair) := by
  have hnamed : ledger.owned.filter (fun entry => entry.1 = item) =
      (ledger.ownedBy item).map fun pair => (item, pair) := by
    rw [ownedBy, Multiset.map_map]
    refine (Multiset.map_id _).symm.trans (Multiset.map_congr rfl fun entry hentry => ?_)
    exact Prod.ext (Multiset.mem_filter.mp hentry).2 rfl
  calc (ledger.ownedBy item).count pair
      = ((ledger.ownedBy item).map fun pair => (item, pair)).count (item, pair) :=
        (Multiset.count_map_eq_count' _ _ (Prod.mk_right_injective item) pair).symm
    _ = (ledger.owned.filter fun entry => entry.1 = item).count (item, pair) := by rw [hnamed]
    _ = ledger.owned.count (item, pair) := Multiset.count_filter_of_pos rfl

theorem count_owned_erase (ledger : Ledger) (item : Bytes) (pair : Nat × Nat) :
    (ledger.erase H item).owned.count (item, pair) =
      (ledger.ownedBy item).count pair -
        (ledger.filter.hashPairs H item : Multiset (Nat × Nat)).count pair := by
  change (ledger.owned - Multiset.map _ _).count (item, pair) = _
  rw [Multiset.count_sub, count_ownedBy,
    Multiset.count_map_eq_count' _ _ (Prod.mk_right_injective item)]

theorem owns_erase_of_ne {item other : Bytes} (hne : other ≠ item) :
    (ledger.erase H item).Owns other ↔ ledger.Owns other := by
  have hcount : ∀ entry : Bytes × Nat × Nat, entry.1 = other →
      (ledger.erase H item).owned.count entry = ledger.owned.count entry := by
    rintro ⟨owner, pair⟩ rfl
    have habsent : (owner, pair) ∉ (ledger.filter.hashPairs H item : Multiset (Nat × Nat)).map
        fun pair => (item, pair) := by
      intro hmem
      obtain ⟨_, _, heq⟩ := Multiset.mem_map.mp hmem
      exact hne (Prod.mk.inj heq).1.symm
    change (ledger.owned - Multiset.map _ _).count (owner, pair) = _
    rw [Multiset.count_sub, Multiset.count_eq_zero_of_notMem habsent, Nat.sub_zero]
  constructor
  · rintro ⟨entry, hentry, howner⟩
    rw [← Multiset.count_pos, hcount entry howner, Multiset.count_pos] at hentry
    exact ⟨entry, hentry, howner⟩
  · rintro ⟨entry, hentry, howner⟩
    refine ⟨entry, ?_, howner⟩
    rw [← Multiset.count_pos, hcount entry howner, Multiset.count_pos]
    exact hentry

theorem owns_erase_self_iff {item : Bytes} :
    (ledger.erase H item).Owns item ↔ ¬ledger.Complete H (.remove item) := by
  constructor
  · rintro ⟨⟨owner, pair⟩, hentry, howner⟩ hcomplete
    obtain rfl : owner = item := howner
    have hle := Multiset.le_iff_count.mp hcomplete pair
    rw [← Multiset.count_pos, count_owned_erase, Nat.sub_eq_zero_of_le hle] at hentry
    exact lt_irrefl 0 hentry
  · intro hincomplete
    obtain ⟨pair, hlt⟩ : ∃ pair,
        (ledger.filter.hashPairs H item : Multiset (Nat × Nat)).count pair <
          (ledger.ownedBy item).count pair := by
      by_contra hnone
      apply hincomplete
      apply Multiset.le_iff_count.mpr
      intro pair
      exact not_lt.mp fun hlt => hnone ⟨pair, hlt⟩
    refine ⟨(item, pair), ?_, rfl⟩
    rw [← Multiset.count_pos, count_owned_erase]
    omega

theorem owns_expand_iff {item : Bytes} : ledger.expand.Owns item ↔ ledger.Owns item := by
  constructor
  · rintro ⟨entry, hentry, howner⟩
    obtain ⟨old, hold, rfl⟩ := Multiset.mem_map.mp hentry
    exact ⟨old, hold, howner⟩
  · rintro ⟨entry, hentry, howner⟩
    exact ⟨_, Multiset.mem_map_of_mem _ hentry, howner⟩

theorem owns_of_owns_compress {item : Bytes} (howns : ledger.compress.Owns item) :
    ledger.Owns item := by
  by_cases hsmall : ledger.filter.bucketCount < 2
  · rw [compress, if_pos hsmall] at howns
    exact howns
  · rw [compress, if_neg hsmall] at howns
    obtain ⟨entry, hentry, howner⟩ := howns
    obtain ⟨old, hold, rfl⟩ := Multiset.mem_map.mp hentry
    exact ⟨old, (Multiset.mem_filter.mp hold).1, howner⟩

theorem owns_compress (haccounts : ledger.Accounts) (hsized : ledger.filter.Sized fpBits)
    {item : Bytes} (howns : ledger.Owns item) : ledger.compress.Owns item := by
  by_cases hsmall : ledger.filter.bucketCount < 2
  · rw [compress, if_pos hsmall]
    exact howns
  · rw [compress, if_neg hsmall]
    obtain ⟨entry, hentry, howner⟩ := howns
    obtain ⟨k, hsize⟩ := hsized.exists_half hsmall
    have hmem : entry.2 ∈ ledger.filter.entries := by
      rw [← haccounts.entries_eq]
      exact Multiset.mem_map_of_mem _ hentry
    have hindex : entry.2.2 < ledger.filter.size := by
      by_contra hout
      have hnil := bucket_eq_nil (haccounts.wellFormed.length_buckets ▸ not_lt.mp hout)
      have hfp := mem_entries.mp hmem
      rw [hnil] at hfp
      exact List.not_mem_nil hfp
    refine ⟨_, Multiset.mem_map_of_mem _ (Multiset.mem_filter.mpr ⟨hentry, ?_⟩), howner⟩
    rw [haccounts.wellFormed.bucketCount_eq]
    omega

theorem owns_insert_iff {item other : Bytes} (hne : other ≠ item) :
    (ledger.insert H item).Owns other ↔ ledger.Owns other := by
  constructor
  · rintro ⟨entry, hentry, howner⟩
    obtain hold | hnew := Multiset.mem_add.mp hentry
    · exact ⟨entry, hold, howner⟩
    · obtain ⟨pair, -, rfl⟩ := Multiset.mem_map.mp hnew
      exact absurd howner.symm hne
  · rintro ⟨entry, hentry, howner⟩
    exact ⟨entry, Multiset.mem_add.mpr (.inl hentry), howner⟩

/-! ### Every run -/

theorem owns_of_owns_erase {item other : Bytes} (howns : (ledger.erase H item).Owns other) :
    ledger.Owns other := by
  obtain ⟨entry, hentry, howner⟩ := howns
  exact ⟨entry, Multiset.mem_of_le (Multiset.sub_le_self _ _) hentry, howner⟩

theorem owns_erase_of_owns_remove {item other : Bytes}
    (howns : (ledger.change H given (.remove item)).Owns other) :
    (ledger.erase H item).Owns other := by
  simp only [change] at howns
  split_ifs at howns
  · exact owns_of_owns_compress howns
  · exact howns

theorem owns_of_owns_change {change : Change} {item : Bytes}
    (howns : (ledger.change H given change).Owns item) (hadd : change ≠ .add item) :
    ledger.Owns item := by
  cases change with
  | add other =>
      have hne : item ≠ other := fun heq => hadd (heq ▸ rfl)
      apply (owns_insert_iff H hne).mp
      simp only [Ledger.change] at howns
      split_ifs at howns
      · exact owns_expand_iff.mp howns
      · exact howns
  | remove other => exact owns_of_owns_erase H (owns_erase_of_owns_remove H howns)
  | expand => exact owns_expand_iff.mp howns
  | compress => exact owns_of_owns_compress howns

theorem owns_run (hempty : ledger.owned = 0) {item : Bytes}
    (howns : (Runs.run (change H given) ledger changes).Owns item) :
    ∃ front back, changes = front ++ .add item :: back ∧
      (Runs.Meets (change H given) (Complete H) ledger changes → .remove item ∉ back) := by
  induction changes using List.reverseRecOn with
  | nil =>
      obtain ⟨entry, hentry, -⟩ := howns
      rw [Runs.run_nil, hempty] at hentry
      exact absurd hentry (Multiset.notMem_zero entry)
  | append_singleton changes last ih =>
      rw [Runs.run_append] at howns
      by_cases hadd : last = .add item
      · exact ⟨changes, [], by rw [hadd], fun _ => List.not_mem_nil⟩
      · obtain ⟨front, back, rfl, hback⟩ := ih (owns_of_owns_change H howns hadd)
        refine ⟨front, back ++ [last], by rw [List.append_assoc]; rfl, fun hcomplete hmem => ?_⟩
        obtain ⟨hfront, hlast, -⟩ := (Runs.meets_append (change H given)).mp hcomplete
        obtain hmem | hmem := List.mem_append.mp hmem
        · exact hback hfront hmem
        · obtain rfl := List.mem_singleton.mp hmem
          exact (owns_erase_self_iff H).mp (owns_erase_of_owns_remove H howns) hlast

theorem owns_change (haccounts : ledger.Accounts) (hsized : ledger.filter.Sized fpBits)
    {change : Change} (hapart : ledger.Apart H change) {item : Bytes} (howns : ledger.Owns item)
    (hremove : change ≠ .remove item) : (ledger.change H given change).Owns item := by
  cases change with
  | add other =>
      have hinserted : (ledger.insert H other).Owns item := by
        obtain ⟨entry, hentry, howner⟩ := howns
        exact ⟨entry, Multiset.mem_add.mpr (.inl hentry), howner⟩
      simp only [Ledger.change]
      split_ifs
      · exact owns_expand_iff.mpr hinserted
      · exact hinserted
  | remove other =>
      have hne : item ≠ other := fun heq => hremove (heq ▸ rfl)
      have herased := (owns_erase_of_ne H hne).mpr howns
      simp only [Ledger.change]
      split_ifs
      · exact owns_compress (haccounts.erase H hapart) (hsized.erase H other) herased
      · exact herased
  | expand => exact owns_expand_iff.mpr howns
  | compress => exact owns_compress haccounts hsized howns

/-- Every item that is added is added once, and removed exactly once behind that. -/
def Paired (changes : List Change) : Prop :=
  ∀ change ∈ changes,
    match change with
    | .add item => changes.count (.add item) = 1 ∧
        (changes.dropWhile (· != .add item)).count (.remove item) = 1
    | _ => True

instance (changes : List Change) : Decidable (Paired changes) := by
  unfold Paired
  refine @List.decidableBAll _ _ (fun change => ?_) changes
  split <;> infer_instance

theorem Paired.count_remove {front back : List Change} {item : Bytes} (hpaired : Paired changes)
    (hsplit : changes = front ++ .add item :: back) : back.count (.remove item) = 1 := by
  subst hsplit
  obtain ⟨honce, hremoved⟩ := hpaired (.add item) (List.mem_append_right front List.mem_cons_self)
  rw [List.count_append, List.count_cons_self] at honce
  have hfront : ∀ change ∈ front, (change != .add item) = true := by
    intro change hchange
    apply bne_iff_ne.mpr
    rintro rfl
    have := List.count_pos_iff.mpr hchange
    omega
  have hne : Change.add item ≠ .remove item := by simp
  rw [List.dropWhile_append_of_pos hfront, List.dropWhile_cons_of_neg (by simp),
    List.count_cons_of_ne hne] at hremoved
  exact hremoved

variable {hashCount : Nat} {omega : Rat}

theorem accounts_run {size : Nat} (hsize : 0 < size)
    (hapart : Runs.Meets (change H given) (Apart H) (create size hashCount omega fpBits) changes) :
    (Runs.run (change H given) (create size hashCount omega fpBits) changes).Accounts :=
  Runs.invariant_of_meets (change H given) Accounts
    (fun _ _ haccounts hok => haccounts.change H hok)
    (accounts_create hsize hashCount omega fpBits) hapart

theorem Accounts.emptied_iff (haccounts : ledger.Accounts) :
    ledger.filter.Emptied ↔ ∀ item, ¬ledger.Owns item := by
  rw [haccounts.wellFormed.emptied_iff, ← haccounts.entries_eq, Multiset.map_eq_zero]
  constructor
  · rintro hzero item ⟨entry, hentry, -⟩
    rw [hzero] at hentry
    exact Multiset.notMem_zero entry hentry
  · intro hnone
    apply Multiset.eq_zero_of_forall_notMem
    intro entry hentry
    exact hnone entry.1 ⟨entry, hentry, rfl⟩

theorem emptied_of_complete {size : Nat} (hsize : 0 < size) (hpaired : Paired changes)
    (hapart : Runs.Meets (change H given) (Apart H) (create size hashCount omega fpBits) changes)
    (hcomplete : Runs.Meets (change H given) (Complete H) (create size hashCount omega fpBits)
      changes) :
    (Runs.run (change H given) (create size hashCount omega fpBits) changes).filter.Emptied := by
  rw [(accounts_run H hsize hapart).emptied_iff]
  intro item howns
  obtain ⟨front, back, hsplit, hback⟩ := owns_run H rfl howns
  have hcount := hpaired.count_remove hsplit
  rw [List.count_eq_zero_of_not_mem (hback hcomplete)] at hcount
  exact absurd hcount Nat.zero_ne_one

theorem owns_of_incomplete {k : Nat} {front back : List Change} {item : Bytes}
    (hapart : Runs.Meets (change H given) (Apart H) (create (2 ^ k) hashCount omega fpBits)
      (front ++ .remove item :: back))
    (hincomplete : ¬(Runs.run (change H given) (create (2 ^ k) hashCount omega fpBits)
      front).Complete H (.remove item)) (hback : .remove item ∉ back) :
    (Runs.run (change H given) (create (2 ^ k) hashCount omega fpBits)
      (front ++ .remove item :: back)).Owns item := by
  obtain ⟨hfront, hremove, hrest⟩ := (Runs.meets_append (change H given)).mp hapart
  have haccounts := accounts_run H (Nat.two_pow_pos k) hfront
  have hsized : (Runs.run (change H given) (create (2 ^ k) hashCount omega fpBits)
      front).filter.Sized fpBits := by
    rw [filter_run]
    exact Runs.invariant _ (Sized fpBits) (fun _ change hsized => hsized.changeGiven H given change)
      (Sized.create k hashCount omega fpBits)
  rw [Runs.run_append, Runs.run_cons]
  generalize Runs.run (change H given) (create (2 ^ k) hashCount omega fpBits) front = ledger
    at hremove hrest haccounts hsized hincomplete ⊢
  have hleft : (ledger.change H given (.remove item)).Owns item := by
    have herased := (owns_erase_self_iff H).mpr hincomplete
    simp only [change]
    split_ifs
    · exact owns_compress (haccounts.erase H hremove) (hsized.erase H item) herased
    · exact herased
  have hmeets : Runs.Meets (change H given) (fun ledger change => ledger.Apart H change ∧
      change ≠ .remove item) (ledger.change H given (.remove item)) back := by
    rw [Runs.meets_iff_forall_split] at hrest ⊢
    rintro first change rest rfl
    refine ⟨hrest first change rest rfl, ?_⟩
    rintro rfl
    exact hback (List.mem_append_right first List.mem_cons_self)
  have hinv := Runs.invariant_of_meets (change H given)
    (fun ledger => ledger.Accounts ∧ ledger.filter.Sized fpBits ∧ ledger.Owns item)
    (fun ledger change hinv hok => ⟨hinv.1.change H hok.1,
      by rw [filter_change]; exact hinv.2.1.changeGiven H given change,
      owns_change H hinv.1 hinv.2.1 hok.1 hinv.2.2 hok.2⟩)
    ⟨haccounts.change H hremove, by rw [filter_change]; exact hsized.changeGiven H given _, hleft⟩
    hmeets
  exact hinv.2.2

/-- **Removal undoes addition** where removals are complete. In every sequence in which each item
added is later removed once, and no removal looks for an entry made for another item, complete
removals leave an empty filter; and if the filter's size is a power of two, only they do. It does
not matter which additions and removals resize the filter. -/
theorem emptied_iff_complete (given : Comparisons) :
    (∀ (size hashCount : Nat) (omega : Rat) (fpBits : Nat) (changes : List Change), 0 < size →
      Paired changes →
      Runs.Meets (change H given) (Apart H) (create size hashCount omega fpBits) changes →
      Runs.Meets (change H given) (Complete H) (create size hashCount omega fpBits) changes →
      (Runs.run (changeGiven H given)
        (ElasticBloomFilter.create size hashCount omega fpBits) changes).Emptied) ∧
    ∀ (k hashCount : Nat) (omega : Rat) (fpBits : Nat) (changes : List Change),
      Paired changes →
      Runs.Meets (change H given) (Apart H) (create (2 ^ k) hashCount omega fpBits) changes →
      ((Runs.run (changeGiven H given)
          (ElasticBloomFilter.create (2 ^ k) hashCount omega fpBits) changes).Emptied ↔
        Runs.Meets (change H given) (Complete H) (create (2 ^ k) hashCount omega fpBits)
          changes) := by
  have hfilter : ∀ size hashCount omega fpBits changes,
      Runs.run (changeGiven H given)
        (ElasticBloomFilter.create size hashCount omega fpBits) changes =
      (Runs.run (change H given) (create size hashCount omega fpBits) changes).filter :=
    fun size hashCount omega fpBits changes => (filter_run H (create _ _ _ _) changes).symm
  constructor
  · intro size hashCount omega fpBits changes hsize hpaired hapart hcomplete
    rw [hfilter]
    exact emptied_of_complete H hsize hpaired hapart hcomplete
  · intro k hashCount omega fpBits changes hpaired hapart
    rw [hfilter]
    refine ⟨fun hemptied => ?_, emptied_of_complete H (Nat.two_pow_pos k) hpaired hapart⟩
    rw [(accounts_run H (Nat.two_pow_pos k) hapart).emptied_iff] at hemptied
    rw [Runs.meets_iff_forall_split]
    rintro front change back rfl
    cases change with
    | remove item =>
        by_contra hincomplete
        have howns : (Runs.run (Ledger.change H given) (create (2 ^ k) hashCount omega fpBits)
            front).Owns item :=
          owns_of_owns_erase H ((owns_erase_self_iff H).mpr hincomplete)
        obtain ⟨first, middle, rfl, -⟩ := owns_run H rfl howns
        have hcount : (middle ++ .remove item :: back).count (.remove item) = 1 :=
          hpaired.count_remove (List.append_assoc first (_ :: middle) _)
        rw [List.count_append, List.count_cons_self] at hcount
        have hback : .remove item ∉ back := fun hmem => by
          have := List.count_pos_iff.mpr hmem
          omega
        exact hemptied item (owns_of_incomplete H hapart hincomplete hback)
    | add item => trivial
    | expand => trivial
    | compress => trivial

/-- Each of two items is removed at the size it was added at, with a resize in between. -/
def resizedBetween : List Change :=
  [.add [1], .expand, .add [2], .compress, .remove [1], .expand, .remove [2]]

theorem emptied_iff_complete_resizedBetween :
    (Paired resizedBetween ∧
      Runs.Meets (change mixHash .exactly) (Apart mixHash) (create (2 ^ 3) 2 (3 / 4) 4)
        resizedBetween) ∧
      (Runs.run (ElasticBloomFilter.change mixHash)
        (ElasticBloomFilter.create (2 ^ 3) 2 (3 / 4) 4) resizedBetween).Emptied := by
  have hpaired : Paired resizedBetween := by decide
  have hapart : Runs.Meets (change mixHash .exactly) (Apart mixHash) (create (2 ^ 3) 2 (3 / 4) 4)
      resizedBetween := by
    decide +kernel
  have hcomplete : Runs.Meets (change mixHash .exactly) (Complete mixHash)
      (create (2 ^ 3) 2 (3 / 4) 4) resizedBetween := by
    decide +kernel
  have hemptied := ((emptied_iff_complete mixHash .exactly).2 3 2 (3 / 4) 4 resizedBetween hpaired
    hapart).mpr hcomplete
  rw [changeGiven_exactly] at hemptied
  exact ⟨⟨hpaired, hapart⟩, hemptied⟩

/-- The first removal leaves the filter so empty that it is halved. The second looks for
fingerprints of three bits, and those stored have four by then. -/
theorem not_emptied_of_compressed :
    (Paired [.add [1], .add [2], .remove [1], .remove [2]] ∧
      Runs.Meets (change mixHash .exactly) (Apart mixHash) (create (2 ^ 5) 3 (3 / 4) 3)
        [.add [1], .add [2], .remove [1], .remove [2]]) ∧
      ¬(Runs.run (ElasticBloomFilter.change mixHash)
        (ElasticBloomFilter.create (2 ^ 5) 3 (3 / 4) 3)
        [.add [1], .add [2], .remove [1], .remove [2]]).Emptied := by
  refine ⟨by decide +kernel, fun hemptied => ?_⟩
  have hbuckets : ¬∀ bucket ∈ (Runs.run (ElasticBloomFilter.change mixHash)
      (ElasticBloomFilter.create (2 ^ 5) 3 (3 / 4) 3)
      [.add [1], .add [2], .remove [1], .remove [2]]).buckets, bucket = [] := by
    decide +kernel
  exact hbuckets hemptied.2

end Ledger

end Poseidon

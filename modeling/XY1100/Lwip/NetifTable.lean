import Mathlib.Tactic
import XY1100.Support.Calls

/-!
# Lwip — the table of packet-data netifs

`ps_if` holds the netif of each activated PDP context under its cid.  A free slot has a null
netif and, as the table starts zeroed and a deletion stores 0, the cid 0; the lookup compares cids
only.  A context of cid 0 therefore shares its cid with every free slot.  The `unsigned char` of a
slot is compared with a signed `char`, so a cid from 128 on is stored and is that of no slot.

* `Findable`: every slot has a cid below 128, and one in use is the first of its cid.
* `liveNetif_eq_some_iff`: in such a table the lookup finds exactly the slots in use.
* `table_reflects_iff`: in every run the lookup agrees with the activations made, exactly when no
  cid from 128 on takes a slot and no context is deactivated whose slot lies before the slot of an
  active cid 0.
-/

namespace XY1100.Netif

/-- How a table operation stops the system. -/
inductive Fault
  | assertion
  | nullPointer
  deriving Repr, DecidableEq

/-- A slot of `ps_if`: a cid and the netif made for it, `none` for the null pointer. -/
@[ext] structure PsNetif where
  cid : UInt8
  psEth : Option Nat
  deriving Repr, DecidableEq

/-- `ps_if[i].cid == c_id`: an `unsigned char` is compared with a signed `char`. -/
def PsNetif.HasCid (slot : PsNetif) (cid : UInt8) : Prop :=
  (slot.cid.toNat : Int) = cid.toInt8.toInt

instance (slot : PsNetif) (cid : UInt8) : Decidable (slot.HasCid cid) :=
  inferInstanceAs (Decidable ((slot.cid.toNat : Int) = cid.toInt8.toInt))

/-- `PS_PDP_CID_MAX`. -/
def psPdpCidMax : Nat := 2

/-- `ps_if` at power-up. -/
def psIf : List PsNetif := List.replicate psPdpCidMax ⟨0, none⟩

/-! ### The operations -/

/-- `find_netif_by_cid`: the first slot of a cid. -/
def findNetifByCid (cid : UInt8) (table : List PsNetif) : Option PsNetif :=
  table.find? fun slot => slot.HasCid cid

/-- The netif a lookup leads to. -/
def liveNetif (cid : UInt8) (table : List PsNetif) : Option Nat :=
  (findNetifByCid cid table).bind PsNetif.psEth

/-- The second loop of `insert_one_netif`: the first slot without a netif takes the new one. -/
def fillSlot (cid : UInt8) (psEth : Nat) : List PsNetif → Except Fault (List PsNetif)
  | [] => .error .assertion
  | slot :: rest =>
      match slot.psEth with
      | none => .ok (⟨cid, some psEth⟩ :: rest)
      | some _ => (slot :: ·) <$> fillSlot cid psEth rest

/-- `insert_one_netif`. -/
def insertOneNetif (cid : UInt8) (psEth : Nat) (table : List PsNetif) :
    Except Fault (List PsNetif) :=
  if ∃ slot ∈ table, slot.HasCid cid ∧ slot.psEth.isSome then .error .assertion
  else fillSlot cid psEth table

/-- `del_one_netif`: the first slot of the cid is freed.  Its netif is read first, so a slot
without one is a null pointer access. -/
def delOneNetif (cid : UInt8) : List PsNetif → Except Fault (List PsNetif)
  | [] => .error .assertion
  | slot :: rest =>
      if slot.HasCid cid then
        match slot.psEth with
        | none => .error .nullPointer
        | some _ => .ok (⟨0, none⟩ :: rest)
      else (slot :: ·) <$> delOneNetif cid rest

/-- `ip46flag`. -/
inductive IpType
  | ipv4
  | ipv6
  | ipv46
  deriving Repr, DecidableEq

/-- `ps_netif_deactivate`: only a context of type IPv4 is taken out of the table. -/
def psNetifDeactivate (cid : UInt8) (ip46flag : IpType) (table : List PsNetif) :
    Except Fault (List PsNetif) :=
  if ip46flag = .ipv4 then
    match findNetifByCid cid table with
    | none => .error .assertion
    | some _ => delOneNetif cid table
  else .ok table

/-- The lookup a deactivation makes first stops it only where the deletion would. -/
theorem psNetifDeactivate_ipv4 (cid : UInt8) (table : List PsNetif) :
    psNetifDeactivate cid .ipv4 table = delOneNetif cid table := by
  induction table with
  | nil => rfl
  | cons slot rest ih =>
    by_cases hc : slot.HasCid cid
    · simp [psNetifDeactivate, findNetifByCid, hc]
    · have hfind : findNetifByCid cid (slot :: rest) = findNetifByCid cid rest := by
        simp [findNetifByCid, hc]
      simp only [psNetifDeactivate, if_true, hfind] at ih ⊢
      rw [delOneNetif, if_neg hc, ← ih]
      cases findNetifByCid cid rest with
      | none => rfl
      | some _ => rfl

/-! ### Lookups in a findable table -/

/-- A byte as a signed `char`. -/
theorem toInt_char (c : UInt8) :
    c.toInt8.toInt = if c.toNat < 128 then (c.toNat : Int) else c.toNat - 256 := by
  rw [Int8.toInt, UInt8.toBitVec_toInt8, BitVec.toInt_eq_toNat_cond]
  change (if 2 * c.toNat < 256 then (c.toNat : Int) else c.toNat - 256) = _
  split_ifs <;> omega

/-- The comparison is that of the cids where the slot's is not negative as a `char`. -/
theorem PsNetif.hasCid_iff {slot : PsNetif} (h : slot.cid < 128) {cid : UInt8} :
    slot.HasCid cid ↔ slot.cid = cid := by
  have hlt : slot.cid.toNat < 128 := UInt8.lt_iff_toNat_lt.mp h
  have hcid := cid.toNat_lt
  rw [HasCid, toInt_char, ← UInt8.toNat_inj]
  split_ifs <;> omega

/-- No slot has a cid from 128 on. -/
theorem PsNetif.not_hasCid (slot : PsNetif) {cid : UInt8} (h : 128 ≤ cid) : ¬ slot.HasCid cid := by
  have hle : 128 ≤ cid.toNat := UInt8.le_iff_toNat_le.mp h
  have hcid := cid.toNat_lt
  rw [HasCid, toInt_char]
  split_ifs <;> omega

/-- No slot has a cid from 128 on, and none hides a slot in use: each of these is the first slot of
its cid. -/
structure Findable (table : List PsNetif) : Prop where
  small : ∀ slot ∈ table, slot.cid < 128
  first : table.Pairwise fun a b => b.psEth.isSome → a.cid ≠ b.cid

theorem findable_psIf : Findable psIf where
  small slot hmem := by
    rw [List.eq_of_mem_replicate hmem]
    decide
  first := List.pairwise_replicate.mpr (.inr (fun h => by cases h))

theorem Findable.cons {slot : PsNetif} {rest : List PsNetif} (h : Findable (slot :: rest)) :
    slot.cid < 128 ∧ (∀ b ∈ rest, b.psEth.isSome → slot.cid ≠ b.cid) ∧ Findable rest := by
  obtain ⟨hfirst, hrest⟩ := List.pairwise_cons.mp h.first
  exact ⟨h.small slot List.mem_cons_self, hfirst,
    fun b hb => h.small b (List.mem_cons_of_mem _ hb), hrest⟩

theorem Findable.of_cons {slot : PsNetif} {rest : List PsNetif} (hsmall : slot.cid < 128)
    (hfirst : ∀ b ∈ rest, b.psEth.isSome → slot.cid ≠ b.cid) (h : Findable rest) :
    Findable (slot :: rest) :=
  ⟨List.forall_mem_cons.mpr ⟨hsmall, h.small⟩, List.pairwise_cons.mpr ⟨hfirst, h.first⟩⟩

@[simp] theorem liveNetif_nil (cid : UInt8) : liveNetif cid [] = none := rfl

theorem liveNetif_cons (cid : UInt8) (slot : PsNetif) (rest : List PsNetif) :
    liveNetif cid (slot :: rest) =
      if slot.HasCid cid then slot.psEth else liveNetif cid rest := by
  by_cases hc : slot.HasCid cid <;> simp [liveNetif, findNetifByCid, hc]

/-- **The lookup of a findable table** finds exactly the slots in use. -/
theorem liveNetif_eq_some_iff {table : List PsNetif} (h : Findable table) {cid : UInt8} {n : Nat} :
    liveNetif cid table = some n ↔ ⟨cid, some n⟩ ∈ table := by
  induction table with
  | nil => simp
  | cons slot rest ih =>
    obtain ⟨hsmall, hfirst, hrest⟩ := h.cons
    rw [liveNetif_cons, List.mem_cons]
    simp only [PsNetif.hasCid_iff hsmall]
    split_ifs with hc
    · constructor
      · intro hn
        exact .inl (PsNetif.ext hc.symm hn.symm)
      · rintro (rfl | hmem)
        · rfl
        · exact absurd hc (hfirst _ hmem rfl)
    · rw [ih hrest]
      constructor
      · exact .inr
      · rintro (rfl | hmem)
        · exact absurd rfl hc
        · exact hmem

/-- A slot in use, written out. -/
theorem mem_of_isSome {table : List PsNetif} {slot : PsNetif} (hmem : slot ∈ table)
    (hlive : slot.psEth.isSome) : ∃ n, ⟨slot.cid, some n⟩ ∈ table := by
  obtain ⟨n, hn⟩ := Option.isSome_iff_exists.mp hlive
  exact ⟨n, hn ▸ hmem⟩

/-! ### Insertion -/

/-- The slots in use after an insertion. -/
theorem mem_fillSlot {cid : UInt8} {m : Nat} {table table' : List PsNetif}
    (h : fillSlot cid m table = .ok table') {c : UInt8} {n : Nat} :
    ⟨c, some n⟩ ∈ table' ↔ ⟨c, some n⟩ ∈ table ∨ (c = cid ∧ n = m) := by
  induction table generalizing table' with
  | nil => cases h
  | cons slot rest ih =>
    rcases hs : slot.psEth with _ | k
    · simp only [fillSlot, hs, Except.ok.injEq] at h
      have hne : (⟨c, some n⟩ : PsNetif) ≠ slot := by
        intro he
        rw [← he] at hs
        cases hs
      subst h
      simp only [List.mem_cons, hne, false_or, PsNetif.mk.injEq, Option.some.injEq]
      exact or_comm
    · simp only [fillSlot, hs] at h
      rcases hr : fillSlot cid m rest with e | rest' <;> rw [hr] at h <;> cases h
      simp only [List.mem_cons, ih hr, or_assoc]

/-- An insertion keeps the table findable: the slots before the one it fills are all in use, and
none of them has the new cid. -/
theorem Findable.fillSlot {cid : UInt8} (hcid : cid < 128) {m : Nat} {table table' : List PsNetif}
    (h : Findable table) (hnew : ∀ slot ∈ table, slot.psEth.isSome → slot.cid ≠ cid)
    (hfill : fillSlot cid m table = .ok table') : Findable table' := by
  induction table generalizing table' with
  | nil => cases hfill
  | cons slot rest ih =>
    obtain ⟨hsmall, hfirst, hrest⟩ := h.cons
    have hnew' : ∀ s ∈ rest, s.psEth.isSome → s.cid ≠ cid :=
      fun s hs => hnew s (List.mem_cons_of_mem _ hs)
    rcases hs : slot.psEth with _ | k
    · simp only [Netif.fillSlot, hs, Except.ok.injEq] at hfill
      subst hfill
      exact .of_cons hcid (fun s hmem hlive => (hnew' s hmem hlive).symm) hrest
    · simp only [Netif.fillSlot, hs] at hfill
      rcases hr : Netif.fillSlot cid m rest with e | rest' <;> rw [hr] at hfill <;> cases hfill
      refine .of_cons hsmall (fun s hmem hlive => ?_) (ih hrest hnew' hr)
      obtain ⟨n, hn⟩ := mem_of_isSome hmem hlive
      rcases (mem_fillSlot hr).mp hn with hold | ⟨heq, -⟩
      · exact hfirst ⟨s.cid, some n⟩ hold rfl
      · rw [heq]
        exact hnew slot List.mem_cons_self (by rw [hs]; rfl)

theorem insertOneNetif_ok {cid : UInt8} {m : Nat} {table table' : List PsNetif}
    (h : insertOneNetif cid m table = .ok table') :
    (∀ slot ∈ table, slot.psEth.isSome → ¬ slot.HasCid cid) ∧
      fillSlot cid m table = .ok table' := by
  unfold insertOneNetif at h
  split_ifs at h with hused
  exact ⟨fun slot hmem hlive hc => hused ⟨slot, hmem, hc, hlive⟩, h⟩

/-- No slot is left for a netif. -/
def Full (table : List PsNetif) : Prop := ∀ slot ∈ table, slot.psEth.isSome

/-- No netif is put into a table exactly if it is full. -/
theorem fillSlot_stops_iff (cid : UInt8) (m : Nat) {table : List PsNetif} :
    (∀ table', fillSlot cid m table ≠ .ok table') ↔ Full table := by
  induction table with
  | nil => exact iff_of_true nofun nofun
  | cons slot rest ih =>
    rw [Full, List.forall_mem_cons]
    rcases hs : slot.psEth with _ | k
    · refine iff_of_false (fun h => h (⟨cid, some m⟩ :: rest) ?_) (by simp)
      simp only [fillSlot, hs]
    · rw [← Full, ← ih]
      simp only [fillSlot, hs, Option.isSome_some, true_and]
      rcases fillSlot cid m rest with e | rest'
      · exact iff_of_true nofun nofun
      · exact iff_of_false (fun h => h _ rfl) (fun h => h _ rfl)

/-! ### Deletion -/

/-- No slot in use for cid 0 lies after the slot of `cid`. -/
def Deletable (cid : UInt8) (table : List PsNetif) : Prop :=
  table.Pairwise fun a b => a.cid = cid → a.psEth.isSome → b.psEth.isSome → b.cid ≠ 0

/-- A deletion that returns, slot by slot. -/
theorem delOneNetif_cons_ok {cid : UInt8} {slot : PsNetif} {rest table' : List PsNetif}
    (h : delOneNetif cid (slot :: rest) = .ok table') :
    (slot.HasCid cid ∧ slot.psEth.isSome ∧ table' = ⟨0, none⟩ :: rest) ∨
      ¬ slot.HasCid cid ∧
        ∃ rest', delOneNetif cid rest = .ok rest' ∧ table' = slot :: rest' := by
  by_cases hc : slot.HasCid cid
  · rcases hs : slot.psEth with _ | k
    · simp [delOneNetif, hc, hs] at h
    · simp only [delOneNetif, hc, if_true, hs, Except.ok.injEq] at h
      exact .inl ⟨hc, rfl, h.symm⟩
  · simp only [delOneNetif, hc, if_false] at h
    rcases hr : delOneNetif cid rest with e | rest' <;> rw [hr] at h <;> cases h
    exact .inr ⟨hc, rest', rfl, rfl⟩

/-- The slots in use after a deletion. -/
theorem mem_delOneNetif {cid : UInt8} {table table' : List PsNetif} (hfind : Findable table)
    (h : delOneNetif cid table = .ok table') {c : UInt8} {n : Nat} :
    ⟨c, some n⟩ ∈ table' ↔ ⟨c, some n⟩ ∈ table ∧ c ≠ cid := by
  induction table generalizing table' with
  | nil => cases h
  | cons slot rest ih =>
    obtain ⟨hsmall, hfirst, hrest⟩ := hfind.cons
    have hdel := delOneNetif_cons_ok h
    rw [PsNetif.hasCid_iff hsmall] at hdel
    rcases hdel with ⟨hc, -, rfl⟩ | ⟨hc, rest', hr, rfl⟩
    · have hother : ∀ {c n}, (⟨c, some n⟩ : PsNetif) ∈ rest → c ≠ cid :=
        fun hmem he => hfirst _ hmem rfl (hc.trans he.symm)
      constructor
      · intro hmem
        rcases List.mem_cons.mp hmem with heq | hmem
        · cases heq
        · exact ⟨List.mem_cons_of_mem _ hmem, hother hmem⟩
      · rintro ⟨hmem, hne⟩
        rcases List.mem_cons.mp hmem with rfl | hmem
        · exact absurd hc hne
        · exact List.mem_cons_of_mem _ hmem
    · simp only [List.mem_cons, ih hrest hr]
      constructor
      · rintro (rfl | ⟨hmem, hne⟩)
        · exact ⟨.inl rfl, hc⟩
        · exact ⟨.inr hmem, hne⟩
      · rintro ⟨rfl | hmem, hne⟩
        · exact .inl rfl
        · exact .inr ⟨hmem, hne⟩

/-- A deletion keeps the table findable where it frees no slot before that of cid 0. -/
theorem Findable.delOneNetif {cid : UInt8} {table table' : List PsNetif} (hfind : Findable table)
    (hdel : Deletable cid table) (h : delOneNetif cid table = .ok table') : Findable table' := by
  induction table generalizing table' with
  | nil => cases h
  | cons slot rest ih =>
    obtain ⟨hsmall, hfirst, hrest⟩ := hfind.cons
    obtain ⟨hbefore, hdel⟩ := List.pairwise_cons.mp hdel
    rcases delOneNetif_cons_ok h with ⟨hc, hlive, rfl⟩ | ⟨hc, rest', hr, rfl⟩
    · have hcid := (PsNetif.hasCid_iff hsmall).mp hc
      exact .of_cons (by decide) (fun b hmem hb => (hbefore b hmem hcid hlive hb).symm) hrest
    · refine .of_cons hsmall (fun b hmem hb => ?_) (ih hrest hdel hr)
      obtain ⟨n, hn⟩ := mem_of_isSome hmem hb
      exact hfirst ⟨b.cid, some n⟩ ((mem_delOneNetif hrest hr).mp hn).1 rfl

/-- The slot in use of a cid can be freed. -/
theorem delOneNetif_returns {cid : UInt8} {table : List PsNetif} {n : Nat}
    (h : liveNetif cid table = some n) : ∃ table', delOneNetif cid table = .ok table' := by
  induction table with
  | nil => cases h
  | cons slot rest ih =>
    rw [liveNetif_cons] at h
    split_ifs at h with hc
    · exact ⟨⟨0, none⟩ :: rest, by simp only [delOneNetif, hc, if_true, h]⟩
    · obtain ⟨rest', hr⟩ := ih h
      exact ⟨slot :: rest', by simp only [delOneNetif, hc, if_false, hr]; rfl⟩

/-- A deletion after which cid 0 is still found freed no slot before it. -/
theorem deletable_of_liveNetif {cid : UInt8} {table table' : List PsNetif} {n : Nat}
    (hfind : Findable table) (h : delOneNetif cid table = .ok table')
    (hzero : liveNetif 0 table' = some n) : Deletable cid table := by
  induction table generalizing table' with
  | nil => cases h
  | cons slot rest ih =>
    obtain ⟨hsmall, hfirst, hrest⟩ := hfind.cons
    have hdel := delOneNetif_cons_ok h
    rw [PsNetif.hasCid_iff hsmall] at hdel
    rcases hdel with ⟨-, -, rfl⟩ | ⟨hc, rest', hr, rfl⟩
    · -- the slot just freed has the cid 0 and no netif
      cases hzero
    · refine List.pairwise_cons.mpr ⟨fun _ _ he => absurd he hc, ?_⟩
      rw [liveNetif_cons, if_congr (PsNetif.hasCid_iff hsmall) rfl rfl] at hzero
      split_ifs at hzero with hz
      · exact hrest.first.imp_of_mem fun {a b} _ hb _ _ _ hlive he =>
          hfirst b hb hlive (hz.trans he.symm)
      · exact ih hrest hr hzero

theorem deletable_of_not_mem {cid : UInt8} {table : List PsNetif}
    (h : ∀ n, ⟨0, some n⟩ ∉ table) : Deletable cid table := by
  refine List.pairwise_of_forall_mem_list ?_
  intro a _ b hb _ _ hlive he
  obtain ⟨n, hn⟩ := mem_of_isSome hb hlive
  exact h n (he ▸ hn)

/-! ### Runs of activations and deactivations -/

/-- An operation on the table. -/
inductive Op
  | insert (cid : UInt8) (psEth : Nat)
  | del (cid : UInt8)
  deriving Repr, DecidableEq

/-- What an operation does to the table. -/
def Op.onTable : Op → List PsNetif → Except Fault (List PsNetif)
  | .insert cid psEth => insertOneNetif cid psEth
  | .del cid => delOneNetif cid

/-- The table, and the contexts that are active with the netif each was activated with. -/
structure Pdp where
  psIf : List PsNetif
  active : UInt8 → Option Nat

/-- What an operation does to the active contexts. -/
def Op.onActive : Op → (UInt8 → Option Nat) → UInt8 → Option Nat
  | .insert cid psEth, active => Function.update active cid (some psEth)
  | .del cid, active => Function.update active cid none

/-- An operation, returning or stopping the system. -/
def exec (op : Op) : EStateM Fault Pdp Unit := fun s =>
  match op.onTable s.psIf with
  | .ok table => .ok () ⟨table, op.onActive s.active⟩
  | .error fault => .error fault s

/-- Power-up: an empty table, no context active. -/
def poweredUp : Pdp := ⟨psIf, fun _ => none⟩

/-- A lookup leads to a netif exactly for the active contexts, and to the one of the context. -/
def Reflects (s : Pdp) : Prop := ∀ cid, liveNetif cid s.psIf = s.active cid

/-- The operation leaves the lookup in agreement with the active contexts, and it returns if it
deletes an active one. -/
def Reflecting (s : Pdp) (op : Op) : Prop :=
  (∀ s', exec op s = .ok () s' → Reflects s') ∧
    ∀ cid, op = .del cid → (s.active cid).isSome → ∃ s', exec op s = .ok () s'

/-- The operation inserts a cid below 128, or finds no free slot, or it deletes a context whose slot
lies before no slot of an active cid 0. -/
def KeepsFindable (s : Pdp) : Op → Prop
  | .insert cid _ => cid < 128 ∨ Full s.psIf
  | .del cid => Deletable cid s.psIf

/-- What a run keeps. -/
def Inv (s : Pdp) : Prop := Findable s.psIf ∧ Reflects s

theorem exec_ok {op : Op} {s s' : Pdp} (h : exec op s = .ok () s') :
    op.onTable s.psIf = .ok s'.psIf ∧ s'.active = op.onActive s.active := by
  unfold exec at h
  split at h
  · cases h
    exact ⟨‹_›, rfl⟩
  · cases h

theorem exec_of_onTable (op : Op) {s : Pdp} {table : List PsNetif}
    (h : op.onTable s.psIf = .ok table) :
    exec op s = .ok () ⟨table, op.onActive s.active⟩ := by
  simp only [exec, h]

/-- Two partial maps with the same entries agree. -/
theorem reflects_of_mem {s : Pdp} (hfind : Findable s.psIf)
    (h : ∀ cid n, ⟨cid, some n⟩ ∈ s.psIf ↔ s.active cid = some n) : Reflects s := by
  intro cid
  ext n
  exact (liveNetif_eq_some_iff hfind).trans (h cid n)

theorem Reflects.mem_iff {s : Pdp} (hr : Reflects s) (hfind : Findable s.psIf) (cid : UInt8)
    (n : Nat) : ⟨cid, some n⟩ ∈ s.psIf ↔ s.active cid = some n := by
  rw [← hr cid]
  exact (liveNetif_eq_some_iff hfind).symm

theorem inv_poweredUp : Inv poweredUp := by
  refine ⟨findable_psIf, reflects_of_mem findable_psIf ?_⟩
  intro cid n
  simp [poweredUp, psIf]

theorem inv_insert {s s' : Pdp} {cid : UInt8} {m : Nat} (hi : Inv s)
    (hok : cid < 128 ∨ Full s.psIf) (h : exec (.insert cid m) s = .ok () s') : Inv s' := by
  obtain ⟨hfind, hr⟩ := hi
  obtain ⟨htable, hactive⟩ := exec_ok h
  obtain ⟨hother, hfill⟩ := insertOneNetif_ok htable
  have hcid : cid < 128 := hok.resolve_right fun hfull => (fillSlot_stops_iff cid m).mpr hfull _ hfill
  have hnew (slot : PsNetif) (hmem : slot ∈ s.psIf) (hlive : slot.psEth.isSome) :
      slot.cid ≠ cid :=
    mt (PsNetif.hasCid_iff (hfind.small slot hmem)).mpr (hother slot hmem hlive)
  have hfind' := hfind.fillSlot hcid hnew hfill
  refine ⟨hfind', reflects_of_mem hfind' ?_⟩
  intro c n
  rw [mem_fillSlot hfill, hr.mem_iff hfind, hactive]
  by_cases hc : c = cid
  · subst hc
    -- the assertion of the insertion: the cid was not in use
    have hnone : s.active c ≠ some n := by
      intro hn
      exact hnew _ ((hr.mem_iff hfind c n).mpr hn) rfl rfl
    simp [Op.onActive, hnone, eq_comm]
  · simp [Op.onActive, hc]

theorem inv_del {s s' : Pdp} {cid : UInt8} (hi : Inv s) (hdel : Deletable cid s.psIf)
    (h : exec (.del cid) s = .ok () s') : Inv s' := by
  obtain ⟨hfind, hr⟩ := hi
  obtain ⟨htable, hactive⟩ := exec_ok h
  have hfind' : Findable s'.psIf := hfind.delOneNetif hdel htable
  refine ⟨hfind', reflects_of_mem hfind' ?_⟩
  intro c n
  rw [mem_delOneNetif hfind htable, hr.mem_iff hfind, hactive]
  by_cases hc : c = cid
  · subst hc
    simp [Op.onActive]
  · simp [Op.onActive, hc]

/-- What an operation keeps. -/
theorem inv_exec {s s' : Pdp} {op : Op} (hi : Inv s) (hok : KeepsFindable s op)
    (h : exec op s = .ok () s') : Inv s' := by
  cases op with
  | insert cid m => exact inv_insert hi hok h
  | del cid => exact inv_del hi hok h

theorem reflecting_of_keepsFindable {s : Pdp} {op : Op} (hi : Inv s) (hok : KeepsFindable s op) :
    Reflecting s op := by
  refine ⟨fun s' h => (inv_exec hi hok h).2, ?_⟩
  rintro cid rfl hactive
  obtain ⟨n, hn⟩ := Option.isSome_iff_exists.mp hactive
  obtain ⟨table, htable⟩ := delOneNetif_returns ((hi.2 cid).trans hn)
  exact ⟨_, exec_of_onTable (.del cid) htable⟩

theorem keepsFindable_of_reflecting {s : Pdp} {op : Op} (hi : Inv s) (hgood : Reflecting s op) :
    KeepsFindable s op := by
  obtain ⟨hfind, hr⟩ := hi
  cases op with
  | insert cid m =>
    -- a cid from 128 on that takes a slot is not found
    refine or_iff_not_imp_left.mpr fun hlarge =>
      (fillSlot_stops_iff cid m).mp fun table' hfill => ?_
    have hnone (slot : PsNetif) : ¬ slot.HasCid cid := slot.not_hasCid (UInt8.not_lt.mp hlarge)
    have hinsert : insertOneNetif cid m s.psIf = .ok table' := by
      rw [insertOneNetif, if_neg (fun ⟨slot, _, hc, _⟩ => hnone slot hc), hfill]
    have hfound := hgood.1 _ (exec_of_onTable (.insert cid m) hinsert) cid
    have hmissed : liveNetif cid table' = none := by
      rw [liveNetif, findNetifByCid, List.find?_eq_none.mpr fun slot _ => by simpa using hnone slot]
      rfl
    rw [hmissed] at hfound
    simp [Op.onActive] at hfound
  | del cid =>
    show Deletable cid s.psIf
    rcases hz : s.active 0 with _ | z
    · refine deletable_of_not_mem ?_
      intro n hn
      rw [hr.mem_iff hfind, hz] at hn
      cases hn
    by_cases hc : cid = 0
    · subst hc
      exact hfind.first.imp fun hne ha _ hlive he => hne hlive (ha.trans he.symm)
    rcases hactive : s.active cid with _ | m
    · -- nothing is in use for the cid
      refine List.pairwise_of_forall_mem_list ?_
      rintro a ha b _ rfl hlive
      obtain ⟨n, hn⟩ := mem_of_isSome ha hlive
      rw [hr.mem_iff hfind, hactive] at hn
      cases hn
    · obtain ⟨s', h⟩ := hgood.2 cid rfl (by rw [hactive]; rfl)
      obtain ⟨htable, hactive'⟩ := exec_ok h
      have hzero : liveNetif 0 s'.psIf = some z := by
        rw [hgood.1 s' h 0, hactive', Op.onActive, Function.update_of_ne (Ne.symm hc), hz]
      exact deletable_of_liveNetif hfind htable hzero

/-- **The table reflects the active contexts** in every run, exactly when no cid from 128 on is put
into a free slot and no context is deleted whose slot lies before the slot of an active cid 0. -/
theorem table_reflects_iff (ops : List Op) :
    Support.Along exec KeepsFindable ops poweredUp ↔ Support.Along exec Reflecting ops poweredUp :=
  Support.along_iff_of_invariant Inv
    (fun _ _ hi => ⟨reflecting_of_keepsFindable hi, keepsFindable_of_reflecting hi⟩)
    (fun _ _ _ _ hi hok h => inv_exec hi hok h) inv_poweredUp

/-- Context 5 takes the first slot and context 0 the second.  With 5 deleted, the lookup of 0 ends
at the slot that 5 left. -/
theorem not_table_reflects :
    ¬ ∀ ops : List Op, Support.Along exec Reflecting ops poweredUp := by
  intro h
  have hzero := (((h [.insert 5 1, .insert 0 2, .del 5]).2 () _ rfl).2 () _ rfl).1.1 _ rfl 0
  cases hzero

end XY1100.Netif

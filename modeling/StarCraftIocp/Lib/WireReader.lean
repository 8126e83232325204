import Mathlib.Tactic
import StarCraftIocp.Lib.Wire

/-!
# Reading the wire format

The other direction. A reader takes what it reads off the front of the bytes, or
fails. How long a varint may be and where it is cut are as in the C++ runtime,
and so is what passes as a field that the message does not have.

No reader looks at more than it takes (`Local`), and what the writers write is
read back (`Reads`).
-/

namespace StarCraftIocp.Wire

variable {α β σ τ : Type}

/-- From the bytes to what is read and the bytes behind it. -/
abbrev Reader (α : Type) : Type := StateT (List UInt8) Option α

/-- Whatever comes behind `bs`, the reader takes `bs` and reads `a`. -/
def Reads (read : Reader α) (bs : List UInt8) (a : α) : Prop :=
  ∀ rest, read.run (bs ++ rest) = some (a, rest)

/-- What the reader accepts, it takes off the front without a look at what is behind. -/
def Local (read : Reader α) : Prop :=
  ∀ bs a rest, read.run bs = some (a, rest) → ∃ front, bs = front ++ rest ∧ Reads read front a

/-! ## The readers -/

def readByte : Reader UInt8
  | [] => none
  | b :: bs => some (b, bs)

/-- At most `k` groups of seven bits, low group first, up to the first that is not flagged. -/
def readGroups : Nat → Reader Nat
  | 0 => failure
  | k + 1 => do
      let b ← readByte
      if b.toNat < 128 then return b.toNat
      else
        let n ← readGroups k
        return b.toNat - 128 + 128 * n

def readVarint : Reader Nat := do
  let n ← readGroups 10
  return n % 18446744073709551616

/-- `ReadTag`. -/
def readTag : Reader Nat := do
  let n ← readGroups 5
  return n % 4294967296

/-- `ReadSize`: no more than `INT_MAX - kSlopBytes`. -/
def readSize : Reader Nat := do
  let n ← readGroups 5
  if n ≤ 2147483631 then return n else failure

def readBytes (n : Nat) : Reader (List UInt8) := fun bs =>
  if n ≤ bs.length then some (bs.take n, bs.drop n) else none

/-- A length and that many bytes. -/
def readLen : Reader (List UInt8) := do
  let n ← readSize
  readBytes n

def readFixed32 : Reader Nat := do
  let bs ← readBytes 4
  return Bytes.readLe32 bs 0

/-! ## Unknown fields -/

/--
The value behind a tag, of a field that the message does not have. The start of
a group is put on the stack of the open ones, of which there are at most `depth`.
-/
def skipValue (depth tag : Nat) (groups : List Nat) : Reader (List Nat) :=
  if tag / 8 = 0 then failure
  else
    match tag % 8 with
    | 0 => do
        let _ ← readVarint
        return groups
    | 1 => do
        let _ ← readBytes 8
        return groups
    | 2 => do
        let _ ← readLen
        return groups
    | 3 => if groups.length < depth then return tag :: groups else failure
    | 5 => do
        let _ ← readBytes 4
        return groups
    | _ => failure

/-- The fields of the open groups, up to the end of the last. -/
def skipGroups (depth : Nat) : Nat → List Nat → Reader Unit
  | _, [] => return ()
  | 0, _ :: _ => failure
  | fuel + 1, start :: groups => do
      let tag ← readTag
      if tag % 8 = 4 then
        if tag = start + 1 then skipGroups depth fuel groups else failure
      else
        let groups ← skipValue depth tag (start :: groups)
        skipGroups depth fuel groups

/-- A field that the message does not have, once its tag is read. -/
def skipField (depth tag : Nat) : Reader Unit := do
  let groups ← skipValue depth tag []
  -- a pass takes a byte at least
  fun bs => skipGroups depth bs.length groups bs

/-! ## Rules -/

theorem run_bind_eq_some {read : Reader α} {next : α → Reader β} {bs rest : List UInt8} {b : β}
    (h : (read >>= next).run bs = some (b, rest)) :
    ∃ a mid, read.run bs = some (a, mid) ∧ (next a).run mid = some (b, rest) := by
  rw [StateT.run_bind] at h
  obtain ⟨⟨a, mid⟩, hread, h⟩ := Option.bind_eq_some_iff.mp h
  exact ⟨a, mid, hread, h⟩

namespace Reads

theorem pure (a : α) : Reads (pure a : Reader α) [] a := fun _ => rfl

theorem bind {read : Reader α} {next : α → Reader β} {bs cs : List UInt8} {a : α} {b : β}
    (h : Reads read bs a) (hnext : Reads (next a) cs b) : Reads (read >>= next) (bs ++ cs) b := by
  intro rest
  have hread := h (cs ++ rest)
  rw [List.append_assoc, StateT.run_bind, hread]
  exact hnext rest

theorem map {read : Reader α} {bs : List UInt8} {a : α} (h : Reads read bs a) (f : α → β) :
    Reads (do let x ← read; return f x) bs (f a) := by
  have := @bind _ _ _ (fun x => Pure.pure (f x)) _ _ _ _ h (pure (f a))
  rwa [List.append_nil] at this

end Reads

namespace Local

theorem pure (a : α) : Local (pure a : Reader α) := by
  intro bs b rest h
  obtain ⟨rfl, rfl⟩ := Prod.mk.inj (Option.some.inj h)
  exact ⟨[], rfl, Reads.pure a⟩

theorem failure : Local (failure : Reader α) := by
  intro bs a rest h
  cases h

theorem bind {read : Reader α} {next : α → Reader β} (h : Local read) (hnext : ∀ a, Local (next a)) :
    Local (read >>= next) := by
  intro bs b rest hrun
  obtain ⟨a, mid, hread, hmid⟩ := run_bind_eq_some hrun
  obtain ⟨front, rfl, hfront⟩ := h bs a mid hread
  obtain ⟨back, rfl, hback⟩ := hnext a mid b rest hmid
  exact ⟨front ++ back, (List.append_assoc ..).symm, hfront.bind hback⟩

theorem ite {c : Prop} [Decidable c] {x y : Reader α} (hx : Local x) (hy : Local y) :
    Local (if c then x else y) := by
  split
  · exact hx
  · exact hy

end Local

theorem local_readByte : Local readByte := by
  intro bs b rest h
  cases bs with
  | nil => cases h
  | cons c cs =>
      obtain ⟨rfl, rfl⟩ := Prod.mk.inj (Option.some.inj h)
      exact ⟨[c], rfl, fun _ => rfl⟩

theorem local_readGroups (k : Nat) : Local (readGroups k) := by
  induction k with
  | zero => exact Local.failure
  | succ k ih =>
      refine local_readByte.bind fun b => Local.ite (Local.pure _) ?_
      exact ih.bind fun n => Local.pure _

theorem local_readVarint : Local readVarint := (local_readGroups 10).bind fun _ => Local.pure _

theorem local_readTag : Local readTag := (local_readGroups 5).bind fun _ => Local.pure _

theorem local_readSize : Local readSize :=
  (local_readGroups 5).bind fun _ => Local.ite (Local.pure _) Local.failure

theorem reads_readBytes (bs : List UInt8) : Reads (readBytes bs.length) bs bs := by
  intro rest
  have hle : bs.length ≤ (bs ++ rest).length := by
    rw [List.length_append]; omega
  change (if _ then _ else _) = _
  rw [if_pos hle, List.take_left, List.drop_left]

theorem local_readBytes (n : Nat) : Local (readBytes n) := by
  intro bs a rest h
  change (if _ then _ else _) = _ at h
  split at h
  · next hle =>
    obtain ⟨rfl, rfl⟩ := Prod.mk.inj (Option.some.inj h)
    refine ⟨bs.take n, (List.take_append_drop n bs).symm, ?_⟩
    have hreads := reads_readBytes (bs.take n)
    rwa [List.length_take, Nat.min_eq_left hle] at hreads
  · cases h

theorem local_readLen : Local readLen := local_readSize.bind local_readBytes

theorem local_readFixed32 : Local readFixed32 := (local_readBytes 4).bind fun _ => Local.pure _

theorem local_skipValue (depth tag : Nat) (groups : List Nat) : Local (skipValue depth tag groups) := by
  unfold skipValue
  refine Local.ite Local.failure ?_
  split
  · exact local_readVarint.bind fun _ => Local.pure _
  · exact (local_readBytes 8).bind fun _ => Local.pure _
  · exact local_readLen.bind fun _ => Local.pure _
  · exact Local.ite (Local.pure _) Local.failure
  · exact (local_readBytes 4).bind fun _ => Local.pure _
  · exact Local.failure

/-- No varint is read off nothing. -/
theorem run_readTag_nil : readTag.run [] = none := rfl

theorem ne_nil_of_readTag {front : List UInt8} {tag : Nat} (h : Reads readTag front tag) : front ≠ [] := by
  rintro rfl
  have := h []
  rw [List.append_nil, run_readTag_nil] at this
  cases this

/-- Skipping takes the same bytes off the front whatever comes behind, given a pass for each. -/
theorem skipGroups_front {depth fuel : Nat} {groups : List Nat} {bs rest : List UInt8}
    (h : (skipGroups depth fuel groups).run bs = some ((), rest)) :
    ∃ front, bs = front ++ rest ∧
      ∀ fuel' rest', front.length ≤ fuel' →
        (skipGroups depth fuel' groups).run (front ++ rest') = some ((), rest') := by
  induction fuel generalizing groups bs with
  | zero =>
      cases groups with
      | nil =>
          obtain ⟨-, rfl⟩ := Prod.mk.inj (Option.some.inj h)
          refine ⟨[], rfl, fun fuel' rest' _ => ?_⟩
          cases fuel' <;> rfl
      | cons start groups => cases h
  | succ fuel ih =>
      cases groups with
      | nil =>
          obtain ⟨-, rfl⟩ := Prod.mk.inj (Option.some.inj h)
          refine ⟨[], rfl, fun fuel' rest' _ => ?_⟩
          cases fuel' <;> rfl
      | cons start groups =>
          obtain ⟨tag, mid, htag, hmid⟩ := run_bind_eq_some h
          obtain ⟨front, rfl, hfront⟩ := local_readTag _ _ _ htag
          have hpos := List.length_pos_iff.mpr (ne_nil_of_readTag hfront)
          -- what one pass leaves on the stack, and the bytes it takes
          have key : ∀ (value : List UInt8) (groups' : List Nat) (mid' : List UInt8), mid = value ++ mid' →
              (skipGroups depth fuel groups').run mid' = some ((), rest) →
              (∀ fuel' more, (skipGroups depth (fuel' + 1) (start :: groups)).run (front ++ (value ++ more)) =
                (skipGroups depth fuel' groups').run more) →
              ∃ front', front ++ mid = front' ++ rest ∧ ∀ fuel' rest', front'.length ≤ fuel' →
                (skipGroups depth fuel' (start :: groups)).run (front' ++ rest') = some ((), rest') := by
            intro value groups' mid' heq hrun hpass
            obtain ⟨back, rfl, hback⟩ := ih hrun
            refine ⟨front ++ (value ++ back), by rw [heq]; simp only [List.append_assoc], ?_⟩
            intro fuel' rest' hfuel
            rw [List.length_append, List.length_append] at hfuel
            obtain ⟨n, rfl⟩ : ∃ n, fuel' = n + 1 := ⟨fuel' - 1, by omega⟩
            rw [List.append_assoc, List.append_assoc, hpass]
            exact hback n rest' (by omega)
          split at hmid
          · next hend =>
            split at hmid
            · next hstart =>
              refine key [] groups mid rfl hmid fun fuel' more => ?_
              rw [skipGroups, StateT.run_bind, List.nil_append, hfront]
              change StateT.run (if tag % 8 = 4 then _ else _) more = _
              rw [if_pos hend, if_pos hstart]
            · cases hmid
          · next hend =>
            obtain ⟨groups', mid', hvalue, hrun⟩ := run_bind_eq_some hmid
            obtain ⟨value, rfl, hv⟩ := local_skipValue _ _ _ _ _ _ hvalue
            refine key value groups' mid' rfl hrun fun fuel' more => ?_
            rw [skipGroups, StateT.run_bind, hfront]
            change StateT.run (if tag % 8 = 4 then _ else _) _ = _
            rw [if_neg hend, StateT.run_bind, hv]
            rfl

theorem local_skipField (depth tag : Nat) : Local (skipField depth tag) := by
  refine (local_skipValue depth tag []).bind fun groups => ?_
  intro bs a rest h
  obtain ⟨front, rfl, hfront⟩ := skipGroups_front h
  refine ⟨front, rfl, fun rest' => hfront _ rest' ?_⟩
  rw [List.length_append]; omega

/-! ## What is written is read -/

theorem reads_groups {j k n : Nat} (hk : 0 < k) (hkj : k ≤ j) (hn : n < 128 ^ k) :
    Reads (readGroups k) (groups j n) n := by
  induction k generalizing j n with
  | zero => omega
  | succ k ih =>
      obtain ⟨j, rfl⟩ : ∃ i, j = i + 1 := ⟨j - 1, by omega⟩
      intro rest
      unfold groups
      split
      · next hsmall =>
        have hnat : (UInt8.ofNat n).toNat = n := by
          rw [UInt8.toNat_ofNat']; omega
        change (if (UInt8.ofNat n).toNat < 128 then (pure (UInt8.ofNat n).toNat : Reader Nat) else _).run rest = _
        rw [if_pos (by rw [hnat]; exact hsmall), hnat]
        rfl
      · next hbig =>
        have hnat : (UInt8.ofNat (n % 128 + 128)).toNat = n % 128 + 128 := by
          rw [UInt8.toNat_ofNat']; omega
        have hkpos : 0 < k := by
          rcases Nat.eq_zero_or_pos k with rfl | hpos
          · rw [Nat.zero_add, Nat.pow_one] at hn; omega
          · exact hpos
        have hdiv : n / 128 < 128 ^ k := by
          rw [Nat.pow_succ] at hn
          exact Nat.div_lt_of_lt_mul (by rw [Nat.mul_comm]; exact hn)
        have hread := @ih j _ hkpos (by omega) hdiv
        change (if (UInt8.ofNat (n % 128 + 128)).toNat < 128 then _ else _ : Reader Nat).run
          (groups j (n / 128) ++ rest) = _
        rw [if_neg (by rw [hnat]; omega), StateT.run_bind, hread rest, hnat]
        change some (_, rest) = some (_, rest)
        rw [show n % 128 + 128 - 128 + 128 * (n / 128) = n by omega]

theorem reads_varint {n : Nat} (hn : n < 18446744073709551616) : Reads readVarint (varint n) n := by
  have h := (@reads_groups 10 10 n (by omega) (by omega) (by omega)).map (· % 18446744073709551616)
  rwa [Nat.mod_eq_of_lt hn] at h

theorem reads_tag {field wireType : Nat} (h : field * 8 + wireType < 4294967296) :
    Reads readTag (tag field wireType) (field * 8 + wireType) := by
  have hread := (@reads_groups 10 5 (field * 8 + wireType) (by omega) (by omega) (by omega)).map
    (· % 4294967296)
  rwa [Nat.mod_eq_of_lt h] at hread

theorem reads_size {n : Nat} (hn : n ≤ 2147483631) : Reads readSize (varint n) n := by
  have hgroups := @reads_groups 10 5 n (by omega) (by omega) (by omega)
  have hsize : Reads (if n ≤ 2147483631 then return n else failure : Reader Nat) [] n := by
    rw [if_pos hn]
    exact Reads.pure n
  have h : Reads readSize (varint n ++ []) n := hgroups.bind hsize
  rwa [List.append_nil] at h

theorem reads_len {bs : List UInt8} (h : bs.length ≤ 2147483631) :
    Reads readLen (varint bs.length ++ bs) bs := (reads_size h).bind (reads_readBytes bs)

theorem reads_fixed32 {n : Nat} :
    Reads readFixed32 (Bytes.le16 (n % 65536) ++ Bytes.le16 (n / 65536)) (n % 4294967296) := by
  have hbytes := reads_readBytes (Bytes.le16 (n % 65536) ++ Bytes.le16 (n / 65536))
  have hvalue : Bytes.readLe32 (Bytes.le16 (n % 65536) ++ Bytes.le16 (n / 65536)) 0 = n % 4294967296 := by
    simp only [Bytes.readLe32, Bytes.readLe16, Bytes.le16, List.cons_append, List.nil_append,
      List.getD_cons_zero, List.getD_cons_succ, UInt8.toNat_ofNat']
    omega
  have h := hbytes.map fun bs => Bytes.readLe32 bs 0
  rwa [hvalue] at h

end StarCraftIocp.Wire

import StarCraftIocp.Lib.WireReader

/-!
# Reading messages

A message is read field by field, to the end of its bytes. A field it has goes to
the reader of that field, which updates the message; any other is skipped. So a
message may come in pieces: `Parses.append` says that bytes written one behind
the other are read one after the other, and `Parses.skip` that fields of a later
version do no harm.
-/

namespace StarCraftIocp.Wire

variable {α σ τ : Type}

/-! ## To the end -/

/-- `step` again and again, until nothing is left. -/
def untilEnd (step : σ → Reader σ) : Nat → σ → List UInt8 → Option σ
  | _, s, [] => some s
  | 0, _, _ :: _ => none
  | fuel + 1, s, b :: bs =>
      match (step s).run (b :: bs) with
      | none => none
      | some (s, rest) => untilEnd step fuel s rest

def readToEnd (step : σ → Reader σ) (s : σ) (bs : List UInt8) : Option σ :=
  untilEnd step bs.length s bs

/-- Each step takes something, and looks at nothing else. -/
structure Advances (step : σ → Reader σ) : Prop where
  isLocal : ∀ s, Local (step s)
  ne_nil : ∀ s front s', Reads (step s) front s' → front ≠ []

section

variable {step : σ → Reader σ} {s s' : σ} {bs cs : List UInt8}

theorem untilEnd_reads {fuel : Nat} (h : Reads (step s) bs s') (hne : bs ≠ []) :
    untilEnd step (fuel + 1) s (bs ++ cs) = untilEnd step fuel s' cs := by
  have hrun := h cs
  cases bs with
  | nil => exact absurd rfl hne
  | cons b bs =>
      rw [List.cons_append] at hrun ⊢
      rw [untilEnd, hrun]

/-- A pass takes a byte at least, so there are passes enough. -/
theorem untilEnd_fuel (ha : Advances step) {n : Nat} (hn : bs.length ≤ n) :
    untilEnd step n s bs = readToEnd step s bs := by
  suffices key : ∀ m n s bs, List.length bs ≤ m → bs.length ≤ n → untilEnd step m s bs = untilEnd step n s bs from
    key n bs.length s bs hn (Nat.le_refl _)
  intro m
  induction m with
  | zero =>
      intro n s bs hm hn
      obtain rfl := List.eq_nil_of_length_eq_zero (Nat.le_zero.mp hm)
      cases n <;> rfl
  | succ m ih =>
      intro n s bs hm hn
      cases bs with
      | nil => cases n <;> rfl
      | cons b bs =>
          obtain ⟨n, rfl⟩ : ∃ k, n = k + 1 := ⟨n - 1, by simp only [List.length_cons] at hn; omega⟩
          cases hrun : (step s).run (b :: bs) with
          | none => rw [untilEnd, untilEnd, hrun]
          | some r =>
              obtain ⟨s1, rest⟩ := r
              obtain ⟨front, heq, hfront⟩ := ha.isLocal s _ _ _ hrun
              have hne := ha.ne_nil s front s1 hfront
              have hlen := congrArg List.length heq
              have hpos := List.length_pos_iff.mpr hne
              rw [List.length_append] at hlen
              rw [heq, untilEnd_reads hfront hne, untilEnd_reads hfront hne]
              exact ih n s1 rest (by omega) (by omega)

theorem readToEnd_reads (ha : Advances step) (h : Reads (step s) bs s') :
    readToEnd step s (bs ++ cs) = readToEnd step s' cs := by
  have hne := ha.ne_nil s bs s' h
  have hpos := List.length_pos_iff.mpr hne
  obtain ⟨n, hn⟩ : ∃ n, (bs ++ cs).length = n + 1 := ⟨bs.length - 1 + cs.length, by rw [List.length_append]; omega⟩
  rw [readToEnd, hn, untilEnd_reads h hne]
  refine untilEnd_fuel ha ?_
  rw [List.length_append] at hn; omega

/-- **Read one behind the other, bytes are read one after the other.** -/
theorem readToEnd_append (ha : Advances step) (h : readToEnd step s bs = some s') :
    readToEnd step s (bs ++ cs) = readToEnd step s' cs := by
  suffices key : ∀ n s bs, List.length bs ≤ n → readToEnd step s bs = some s' →
      readToEnd step s (bs ++ cs) = readToEnd step s' cs from key bs.length s bs (Nat.le_refl _) h
  intro n
  induction n with
  | zero =>
      intro s bs hn h
      obtain rfl := List.eq_nil_of_length_eq_zero (Nat.le_zero.mp hn)
      obtain rfl := Option.some.inj h
      rfl
  | succ n ih =>
      intro s bs hn h
      cases bs with
      | nil =>
          obtain rfl := Option.some.inj h
          rfl
      | cons b bs =>
          cases hrun : (step s).run (b :: bs) with
          | none =>
              rw [readToEnd, List.length_cons, untilEnd, hrun] at h
              cases h
          | some r =>
              obtain ⟨s1, rest⟩ := r
              obtain ⟨front, heq, hfront⟩ := ha.isLocal s _ _ _ hrun
              have hlen := congrArg List.length heq
              have hpos := List.length_pos_iff.mpr (ha.ne_nil s front s1 hfront)
              rw [List.length_append] at hlen
              rw [heq, readToEnd_reads ha hfront] at h
              rw [heq, List.append_assoc, readToEnd_reads ha hfront]
              exact ih s1 rest (by omega) h

end

/-! ## Fields -/

/-- The reader of one field: it updates the message. -/
structure FieldReader (σ : Type) where
  read : σ → Reader σ
  isLocal : ∀ m, Local (read m)

namespace FieldReader

/-- What is read becomes a field of the message. -/
def ofReader {read : Reader α} (h : Local read) (set : σ → α → σ) : FieldReader σ where
  read m := do
    let a ← read
    return set m a
  isLocal _ := h.bind fun _ => Local.pure _

/-- An integer, boolean or enumeration field. -/
def varint (set : σ → Nat → σ) : FieldReader σ := ofReader local_readVarint set

def fixed32 (set : σ → Nat → σ) : FieldReader σ := ofReader local_readFixed32 set

def bytes (set : σ → List UInt8 → σ) : FieldReader σ := ofReader local_readLen set

/-- A length and bytes that `value` makes something of. -/
def delimited (value : σ → List UInt8 → Option σ) : FieldReader σ where
  read m := do
    let bs ← readLen
    match value m bs with
    | some m => return m
    | none => failure
  isLocal m := by
    refine local_readLen.bind fun bs => ?_
    split
    · exact Local.pure _
    · exact Local.failure

/-- A `string` field, whose bytes have to be `valid`. -/
def string (valid : List UInt8 → Bool) (set : σ → List UInt8 → σ) : FieldReader σ :=
  delimited fun m bs => if valid bs then some (set m bs) else none

/-- A packed repeated field of integers. -/
def packed (add : σ → Nat → σ) : FieldReader σ :=
  delimited (readToEnd fun m => do
    let n ← readVarint
    return add m n)

end FieldReader

/-- The fields a message has, by tag. -/
abbrev Fields (σ : Type) : Type := Nat → Option (FieldReader σ)

/-- One field; `depth` is what is left of the recursion limit. -/
def readField (fields : Fields σ) (depth : Nat) (m : σ) : Reader σ := do
  let tag ← readTag
  match fields tag with
  | some field => field.read m
  | none => do
      skipField depth tag
      return m

/-- The loop of `_InternalParse`, to the end of the message. -/
def parse (fields : Fields σ) (depth : Nat) (m : σ) (bs : List UInt8) : Option σ :=
  readToEnd (readField fields depth) m bs

/-- A sub-message, read into the one that is there. -/
def FieldReader.message (fields : Fields τ) (depth : Nat) (get : σ → τ) (set : σ → τ → σ) :
    FieldReader σ :=
  delimited fun m bs => (parse fields depth (get m) bs).map (set m)

theorem advances_readField (fields : Fields σ) (depth : Nat) : Advances (readField fields depth) where
  isLocal m := by
    refine local_readTag.bind fun tag => ?_
    split
    · next field _ => exact field.isLocal m
    · exact (local_skipField depth tag).bind fun _ => Local.pure _
  ne_nil := by
    rintro m front m' h rfl
    cases h []

theorem advances_readVarint (add : σ → Nat → σ) :
    Advances fun m => do
      let n ← readVarint
      return add m n where
  isLocal m := local_readVarint.bind fun _ => Local.pure _
  ne_nil := by
    rintro m front m' h rfl
    cases h []

/-! ## What parsing keeps -/

section

variable {I : σ → Prop} {fields : Fields σ} {depth : Nat} {m m' : σ} {bs : List UInt8}

/-- What each step keeps is kept to the end. -/
theorem readToEnd_keeps {step : σ → Reader σ}
    (hstep : ∀ m bs m' rest, I m → (step m).run bs = some (m', rest) → I m') (hm : I m)
    (h : readToEnd step m bs = some m') : I m' := by
  unfold readToEnd at h
  generalize bs.length = fuel at h
  induction fuel generalizing m bs with
  | zero =>
      cases bs with
      | nil =>
          obtain rfl := Option.some.inj h
          exact hm
      | cons b bs => cases h
  | succ fuel ih =>
      cases bs with
      | nil =>
          obtain rfl := Option.some.inj h
          exact hm
      | cons b bs =>
          rw [untilEnd] at h
          split at h
          · cases h
          · next hrun => exact ih (hstep _ _ _ _ hm hrun) h

/-- The field is read into a message with the property, and leaves one. -/
def FieldReader.Keeps (I : σ → Prop) (field : FieldReader σ) : Prop :=
  ∀ m bs m' rest, I m → (field.read m).run bs = some (m', rest) → I m'

theorem FieldReader.keeps_ofReader {read : Reader α} {set : σ → α → σ} (hread : Local read)
    (hset : ∀ m a, I m → I (set m a)) : (FieldReader.ofReader hread set).Keeps I := by
  intro m bs m' rest hm hrun
  obtain ⟨a, bs1, -, hset'⟩ := run_bind_eq_some hrun
  obtain ⟨rfl, -⟩ := Prod.mk.inj (Option.some.inj hset')
  exact hset m a hm

theorem FieldReader.keeps_delimited {value : σ → List UInt8 → Option σ}
    (hvalue : ∀ m bs m', I m → value m bs = some m' → I m') : (FieldReader.delimited value).Keeps I := by
  intro m bs m' rest hm hrun
  obtain ⟨data, bs1, -, hset⟩ := run_bind_eq_some hrun
  cases hdata : value m data with
  | none =>
      rw [hdata] at hset
      cases hset
  | some m1 =>
      rw [hdata] at hset
      obtain ⟨rfl, -⟩ := Prod.mk.inj (Option.some.inj hset)
      exact hvalue m data m1 hm hdata

/-- A string that has been read is valid. -/
theorem FieldReader.keeps_string {valid : List UInt8 → Bool} {set : σ → List UInt8 → σ}
    (hset : ∀ m bs, I m → valid bs = true → I (set m bs)) : (FieldReader.string valid set).Keeps I := by
  refine keeps_delimited fun m bs m' hm hvalue => ?_
  obtain ⟨hvalid, hm'⟩ := Option.ite_none_right_eq_some.mp hvalue
  obtain rfl := Option.some.inj hm'
  exact hset m bs hm hvalid

/-- **What no field can spoil holds of a message that is parsed.** -/
theorem parse_keeps (hfields : ∀ tag field, fields tag = some field → field.Keeps I) (hm : I m)
    (h : parse fields depth m bs = some m') : I m' := by
  refine readToEnd_keeps (fun m bs m' rest hm hrun => ?_) hm h
  obtain ⟨tag, bs1, -, hread⟩ := run_bind_eq_some hrun
  cases htag : fields tag with
  | some field =>
      rw [htag] at hread
      exact hfields tag field htag m bs1 m' rest hm hread
  | none =>
      rw [htag] at hread
      obtain ⟨_, bs2, -, hsame⟩ := run_bind_eq_some hread
      obtain ⟨rfl, -⟩ := Prod.mk.inj (Option.some.inj hsame)
      exact hm

end

/-! ## Parsing what was written -/

/-- Bytes that take one state of the message to another. -/
def Parses (fields : Fields σ) (depth : Nat) (m : σ) (bs : List UInt8) (m' : σ) : Prop :=
  parse fields depth m bs = some m'

namespace Parses

variable {fields : Fields σ} {depth : Nat} {m m' m'' : σ} {bs cs : List UInt8} {tag : Nat}

theorem nil : Parses fields depth m [] m := rfl

theorem append (h : Parses fields depth m bs m') (h' : Parses fields depth m' cs m'') :
    Parses fields depth m (bs ++ cs) m'' := by
  have happend : parse fields depth m (bs ++ cs) = parse fields depth m' cs :=
    readToEnd_append (advances_readField fields depth) h
  exact happend.trans h'

/-- A field that may be left out when it changes nothing. -/
theorem omitted {c : Prop} [Decidable c] (hc : c → m' = m) (h : ¬ c → Parses fields depth m bs m') :
    Parses fields depth m (if c then [] else bs) m' := by
  split
  · next hyes =>
    obtain rfl := hc hyes
    exact nil
  · next hno => exact h hno

theorem of_reads (h : Reads (readField fields depth m) bs m') : Parses fields depth m bs m' := by
  have hread : parse fields depth m (bs ++ []) = some m' := readToEnd_reads (advances_readField fields depth) h
  rwa [List.append_nil] at hread

theorem field {f : FieldReader σ} (hf : fields tag = some f) (htag : Reads readTag bs tag)
    (h : Reads (f.read m) cs m') : Parses fields depth m (bs ++ cs) m' := by
  refine of_reads (htag.bind ?_)
  rw [hf]
  exact h

/-- **A field that the message does not have changes nothing.** -/
theorem skip (hf : fields tag = none) (htag : Reads readTag bs tag)
    (h : Reads (skipField depth tag) cs ()) : Parses fields depth m (bs ++ cs) m := by
  refine of_reads (htag.bind ?_)
  rw [hf]
  exact h.map fun _ => m

theorem varint {set : σ → Nat → σ} {n : Nat} (hf : fields tag = some (.varint set))
    (htag : Reads readTag bs tag) (h : Reads readVarint cs n) :
    Parses fields depth m (bs ++ cs) (set m n) := field hf htag (h.map (set m))

theorem fixed32 {set : σ → Nat → σ} {n : Nat} (hf : fields tag = some (.fixed32 set))
    (htag : Reads readTag bs tag) (h : Reads readFixed32 cs n) :
    Parses fields depth m (bs ++ cs) (set m n) := field hf htag (h.map (set m))

theorem bytes {set : σ → List UInt8 → σ} {data : List UInt8} (hf : fields tag = some (.bytes set))
    (htag : Reads readTag bs tag) (h : Reads readLen cs data) :
    Parses fields depth m (bs ++ cs) (set m data) := field hf htag (h.map (set m))

theorem delimited {value : σ → List UInt8 → Option σ} {data : List UInt8}
    (hf : fields tag = some (.delimited value)) (htag : Reads readTag bs tag) (h : Reads readLen cs data)
    (hvalue : value m data = some m') : Parses fields depth m (bs ++ cs) m' := by
  refine field hf htag fun rest => ?_
  change StateT.run (readLen >>= _) _ = _
  rw [StateT.run_bind, h rest]
  change StateT.run (match value m data with
    | some m => return m
    | none => failure) rest = _
  rw [hvalue]
  rfl

theorem string {valid : List UInt8 → Bool} {set : σ → List UInt8 → σ} {data : List UInt8}
    (hf : fields tag = some (.string valid set)) (htag : Reads readTag bs tag) (h : Reads readLen cs data)
    (hvalid : valid data = true) : Parses fields depth m (bs ++ cs) (set m data) :=
  delimited hf htag h (if_pos hvalid)

theorem message {fields' : Fields τ} {depth' : Nat} {get : σ → τ} {set : σ → τ → σ} {data : List UInt8} {t : τ}
    (hf : fields tag = some (.message fields' depth' get set)) (htag : Reads readTag bs tag)
    (h : Reads readLen cs data) (ht : Parses fields' depth' (get m) data t) :
    Parses fields depth m (bs ++ cs) (set m t) := by
  refine delimited hf htag h ?_
  rw [ht, Option.map_some]

/-- The elements of a packed field, each with any varint for its number. -/
theorem packed {add : σ → Nat → σ} {vs : List α} {number : α → Nat} {write : α → List UInt8}
    (hf : fields tag = some (.packed add)) (htag : Reads readTag bs tag) (h : Reads readLen cs (vs.flatMap write))
    (hwrite : ∀ v ∈ vs, Reads readVarint (write v) (number v)) :
    Parses fields depth m (bs ++ cs) (vs.foldl (fun m v => add m (number v)) m) := by
  refine delimited hf htag h ?_
  clear h
  induction vs generalizing m with
  | nil => rfl
  | cons v vs ih =>
      have hread := (hwrite v List.mem_cons_self).map (add m)
      rw [List.flatMap_cons, readToEnd_reads (advances_readVarint add) hread]
      exact ih fun u hu => hwrite u (List.mem_cons_of_mem v hu)

end Parses

/-! ## Fields of a later version -/

/-- Pieces that are parsed one after the other. -/
def ParsesAll (fields : Fields σ) (depth : Nat) : σ → List (List UInt8) → σ → Prop
  | m, [], m' => m' = m
  | m, bs :: pieces, m' => ∃ mid, Parses fields depth m bs mid ∧ ParsesAll fields depth mid pieces m'

/-- The pieces back to back, with fields among them that the message does not have. -/
inductive Padded (fields : Fields σ) (depth : Nat) : List (List UInt8) → List UInt8 → Prop where
  | nil : Padded fields depth [] []
  | piece {bs rest : List UInt8} {pieces : List (List UInt8)} (h : Padded fields depth pieces rest) :
      Padded fields depth (bs :: pieces) (bs ++ rest)
  | unknown {tag : Nat} {bs cs rest : List UInt8} {pieces : List (List UInt8)} (hf : fields tag = none)
      (htag : Reads readTag bs tag) (hvalue : Reads (skipField depth tag) cs ())
      (h : Padded fields depth pieces rest) : Padded fields depth pieces ((bs ++ cs) ++ rest)

theorem Padded.flatten (fields : Fields σ) (depth : Nat) (pieces : List (List UInt8)) :
    Padded fields depth pieces pieces.flatten := by
  induction pieces with
  | nil => exact .nil
  | cons bs pieces ih => exact .piece ih

theorem Padded.length_le {fields : Fields σ} {depth : Nat} {pieces : List (List UInt8)} {bs : List UInt8}
    (h : Padded fields depth pieces bs) : pieces.flatten.length ≤ bs.length := by
  induction h with
  | nil => exact Nat.le_refl _
  | piece _ ih =>
      rw [List.flatten_cons, List.length_append, List.length_append]
      omega
  | unknown _ _ _ _ ih =>
      rw [List.length_append]
      omega

/-- **What is between the pieces does not matter.** -/
theorem ParsesAll.padded {fields : Fields σ} {depth : Nat} {m m' : σ} {pieces : List (List UInt8)}
    {bs : List UInt8} (h : ParsesAll fields depth m pieces m') (hp : Padded fields depth pieces bs) :
    Parses fields depth m bs m' := by
  induction hp generalizing m with
  | nil =>
      obtain rfl := h
      exact Parses.nil
  | piece _ ih =>
      obtain ⟨mid, hmid, h⟩ := h
      exact hmid.append (ih h)
  | unknown hf htag hvalue _ ih => exact (Parses.skip hf htag hvalue).append (ih h)

end StarCraftIocp.Wire

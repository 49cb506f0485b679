import CitrateGateway.Shared.Abi

/-!
# Head and tail of the contract ABI

The parts of a tuple stand one after the other in its head. A part of a dynamic type leaves
only an offset there: its content follows in the tail, where a byte string begins with its
length and ends with zeros up to the next word. Reading follows the offsets and, as contracts
do, asks nothing of the bytes it does not need.
-/

namespace Abi
set_option autoImplicit false
open Words

section Parts

inductive Part where
  | static (head : Bytes)
  | dynamic (tail : Bytes)

def Part.headLength : Part → Nat
  | .static head => head.length
  | .dynamic _ => 32

def Part.tail : Part → Bytes
  | .static _ => []
  | .dynamic tail => tail

def headsLength (ps : List Part) : Nat := (ps.map Part.headLength).sum

def tails (ps : List Part) : Bytes := ps.flatMap Part.tail

/-- The heads of the parts, when the tail of the first one stands at `offset`. -/
def heads (offset : Nat) : List Part → Bytes
  | [] => []
  | .static head :: ps => head ++ heads offset ps
  | .dynamic tail :: ps => beBytes 32 offset ++ heads (offset + tail.length) ps

def encodeParts (ps : List Part) : Bytes := heads (headsLength ps) ps ++ tails ps

theorem headsLength_append (ps qs : List Part) :
    headsLength (ps ++ qs) = headsLength ps + headsLength qs := by
  simp [headsLength]

theorem tails_append (ps qs : List Part) : tails (ps ++ qs) = tails ps ++ tails qs := by
  simp [tails]

theorem heads_length (offset : Nat) (ps : List Part) :
    (heads offset ps).length = headsLength ps := by
  induction ps generalizing offset with
  | nil => rfl
  | cons p ps ih =>
    cases p with
    | static head =>
      rw [heads, List.length_append, ih]
      rfl
    | dynamic tail =>
      rw [heads, List.length_append, ih, beBytes_length]
      rfl

theorem heads_append (offset : Nat) (ps qs : List Part) :
    heads offset (ps ++ qs) = heads offset ps ++ heads (offset + (tails ps).length) qs := by
  induction ps generalizing offset with
  | nil => rfl
  | cons p ps ih =>
    cases p with
    | static head =>
      rw [List.cons_append, heads, heads, ih, List.append_assoc]
      rfl
    | dynamic tail =>
      have htails : (tails (.dynamic tail :: ps)).length = tail.length + (tails ps).length := by
        simp [tails, Part.tail]
      rw [List.cons_append, heads, heads, ih, List.append_assoc, htails, Nat.add_assoc]

theorem encodeParts_static (ps qs : List Part) (head : Bytes) :
    ∃ before after, encodeParts (ps ++ .static head :: qs) = before ++ (head ++ after) ∧
      before.length = headsLength ps := by
  let length := headsLength (ps ++ .static head :: qs)
  refine ⟨heads length ps, heads (length + (tails ps).length) qs ++
    tails (ps ++ .static head :: qs), ?_, heads_length length ps⟩
  rw [encodeParts, heads_append, heads, List.append_assoc, List.append_assoc]

/-- A dynamic part stands where the word in its place in the head says. -/
theorem encodeParts_dynamic (ps qs : List Part) (tail : Bytes) :
    ∃ offset before between after,
      encodeParts (ps ++ .dynamic tail :: qs) =
        before ++ (beBytes 32 offset ++ (between ++ (tail ++ after))) ∧
      before.length = headsLength ps ∧ offset = before.length + 32 + between.length := by
  let length := headsLength (ps ++ .dynamic tail :: qs)
  refine ⟨length + (tails ps).length, heads length ps,
    heads (length + (tails ps).length + tail.length) qs ++ tails ps, tails qs, ?_,
    heads_length _ ps, ?_⟩
  · have htails : tails (.dynamic tail :: qs) = tail ++ tails qs := rfl
    rw [encodeParts, heads_append, heads, tails_append, htails]
    simp only [List.append_assoc, length]
  · have hparts : length = headsLength ps + (32 + headsLength qs) := headsLength_append ps _
    rw [List.length_append, heads_length, heads_length, hparts]
    omega

end Parts

section Items

/-- Zeros up to the next multiple of 32. -/
def padding (n : Nat) : Nat := (32 - n % 32) % 32

def wordPart {w : Nat} (x : BitVec w) : Part := .static (beBytes 32 x.toNat)

def bytesTail (bs : Bytes) : Bytes :=
  beBytes 32 bs.length ++ (bs ++ List.replicate (padding bs.length) 0)

def bytesPart (bs : Bytes) : Part := .dynamic (bytesTail bs)

def wordsTail {w : Nat} (xs : List (BitVec w)) : Bytes :=
  beBytes 32 xs.length ++ xs.flatMap fun x => beBytes 32 x.toNat

def wordsPart {w : Nat} (xs : List (BitVec w)) : Part := .dynamic (wordsTail xs)

theorem bytesTail_length (bs : Bytes) :
    (bytesTail bs).length = 32 + (bs.length + padding bs.length) := by
  simp [bytesTail]

theorem padding_lt (n : Nat) : padding n < 32 := Nat.mod_lt _ (by omega)

theorem add_padding_mod (n : Nat) : (n + padding n) % 32 = 0 := by
  unfold padding
  omega

end Items

section Reading

def readWord (bs : Bytes) (pos : Nat) : Option Nat :=
  if pos + 32 ≤ bs.length then some (ofBeBytes ((bs.drop pos).take 32)) else none

/-- The byte string whose length stands at `pos`. -/
def readBytes (bs : Bytes) (pos : Nat) : Option Bytes :=
  (readWord bs pos).bind fun length =>
    if pos + 32 + length ≤ bs.length then some ((bs.drop (pos + 32)).take length) else none

theorem readWord_of_append {before after : Bytes} {n pos : Nat} (hpos : before.length = pos)
    (hn : n < 2 ^ 256) : readWord (before ++ (beBytes 32 n ++ after)) pos = some n := by
  subst hpos
  have hlen : before.length + 32 ≤ (before ++ (beBytes 32 n ++ after)).length := by
    simp only [List.length_append, beBytes_length]
    omega
  rw [readWord, if_pos hlen, List.drop_left, List.take_left' (beBytes_length 32 n),
    ofBeBytes_beBytes, Nat.mod_eq_of_lt (by omega)]

theorem readBytes_of_append {before after bs : Bytes} {pos : Nat} (hpos : before.length = pos)
    (hbs : bs.length < 2 ^ 256) : readBytes (before ++ (bytesTail bs ++ after)) pos = some bs := by
  have hsplit : before ++ (bytesTail bs ++ after) = (before ++ beBytes 32 bs.length) ++
      (bs ++ (List.replicate (padding bs.length) 0 ++ after)) := by
    simp [bytesTail, List.append_assoc]
  have hword : readWord (before ++ (bytesTail bs ++ after)) pos = some bs.length := by
    rw [bytesTail, List.append_assoc]
    exact readWord_of_append hpos hbs
  have hhead : (before ++ beBytes 32 bs.length).length = pos + 32 := by
    rw [List.length_append, beBytes_length, hpos]
  have hlen : pos + 32 + bs.length ≤ (before ++ (bytesTail bs ++ after)).length := by
    rw [hsplit, List.length_append, hhead, List.length_append]
    omega
  rw [readBytes, hword, Option.bind_some, if_pos hlen, hsplit, List.drop_left' hhead,
    List.take_left]

end Reading

section Arguments

inductive Ty where
  | word (w : Nat)
  | bytes

abbrev Ty.Val : Ty → Type
  | .word w => BitVec w
  | .bytes => Bytes

inductive Args : List Ty → Type where
  | nil : Args []
  | cons {t : Ty} {ts : List Ty} (x : t.Val) (xs : Args ts) : Args (t :: ts)

def part : (t : Ty) → t.Val → Part
  | .word _, x => wordPart x
  | .bytes, bs => bytesPart bs

def parts : {ts : List Ty} → Args ts → List Part
  | _, .nil => []
  | _, .cons x xs => part _ x :: parts xs

def encodeArgs {ts : List Ty} (xs : Args ts) : Bytes := encodeParts (parts xs)

/-- The argument whose head stands at `pos`. -/
def decodeArg (bs : Bytes) (pos : Nat) : (t : Ty) → Option t.Val
  | .word w => (readWord bs pos).bind fun n => if n < 2 ^ w then some (BitVec.ofNat w n) else none
  | .bytes => (readWord bs pos).bind fun offset => readBytes bs offset

def decodeArgs (bs : Bytes) (pos : Nat) : (ts : List Ty) → Option (Args ts)
  | [] => some .nil
  | t :: ts =>
    (decodeArg bs pos t).bind fun x => (decodeArgs bs (pos + 32) ts).map (.cons x)

def Ty.Fits : Ty → Prop
  | .word w => w ≤ 256
  | .bytes => True

theorem decodeArg_encodeParts {t : Ty} (ht : t.Fits) (x : t.Val) (ps qs : List Part)
    (hlen : (encodeParts (ps ++ part t x :: qs)).length < 2 ^ 256) :
    decodeArg (encodeParts (ps ++ part t x :: qs)) (headsLength ps) t = some x := by
  cases t with
  | word w =>
    obtain ⟨before, after, heq, hbefore⟩ := encodeParts_static ps qs (beBytes 32 x.toNat)
    have hx : x.toNat < 2 ^ w := x.isLt
    have hpow : 2 ^ w ≤ 2 ^ 256 := Nat.pow_le_pow_right (by omega) ht
    rw [decodeArg, part, wordPart, heq, readWord_of_append hbefore (by omega), Option.bind_some,
      if_pos hx, BitVec.ofNat_toNat, BitVec.setWidth_eq]
  | bytes =>
    obtain ⟨offset, before, between, after, heq, hbefore, hoffset⟩ :=
      encodeParts_dynamic ps qs (bytesTail x)
    rw [part, bytesPart, heq] at hlen ⊢
    have hlength := bytesTail_length x
    simp only [List.length_append, beBytes_length] at hlen
    have hword : readWord (before ++ (beBytes 32 offset ++ (between ++ (bytesTail x ++ after))))
        (headsLength ps) = some offset := readWord_of_append hbefore (by omega)
    have hread : readBytes ((before ++ (beBytes 32 offset ++ between)) ++ (bytesTail x ++ after))
        offset = some x := by
      apply readBytes_of_append
      · simp only [List.length_append, beBytes_length]
        omega
      · omega
    simp only [List.append_assoc] at hread
    rw [decodeArg, hword, Option.bind_some, hread]

theorem part_headLength (t : Ty) (x : t.Val) : (part t x).headLength = 32 := by
  cases t with
  | word w => rw [part, wordPart, Part.headLength, beBytes_length]
  | bytes => rfl

theorem decodeArgs_encodeParts {ts : List Ty} (hts : ∀ t ∈ ts, t.Fits) (xs : Args ts)
    (ps : List Part) (hlen : (encodeParts (ps ++ parts xs)).length < 2 ^ 256) :
    decodeArgs (encodeParts (ps ++ parts xs)) (headsLength ps) ts = some xs := by
  induction xs generalizing ps with
  | nil => rfl
  | @cons t ts x xs ih =>
    have hnext : ps ++ parts (.cons x xs) = (ps ++ [part t x]) ++ parts xs := by
      simp [parts]
    have hpos : headsLength (ps ++ [part t x]) = headsLength ps + 32 := by
      rw [headsLength_append]
      simp [headsLength, part_headLength]
    have hrest := ih (fun t ht => hts t (by simp [ht])) (ps ++ [part t x])
      (by rwa [← hnext])
    rw [← hnext, hpos] at hrest
    rw [decodeArgs, hrest]
    have hfirst := decodeArg_encodeParts (hts t (by simp)) x ps (parts xs) hlen
    rw [parts, hfirst]
    rfl

/-- Reading what was written, for every list of arguments. -/
theorem decodeArgs_encodeArgs {ts : List Ty} (hts : ∀ t ∈ ts, t.Fits) (xs : Args ts)
    (hlen : (encodeArgs xs).length < 2 ^ 256) : decodeArgs (encodeArgs xs) 0 ts = some xs :=
  decodeArgs_encodeParts hts xs [] hlen

end Arguments

section Calls

/-- A call: the selector of a function and its arguments. -/
def decodeCall (selector : Bytes) (ts : List Ty) (bs : Bytes) : Option (Args ts) :=
  if bs.take selector.length = selector then decodeArgs (bs.drop selector.length) 0 ts else none

theorem decodeCall_append (selector : Bytes) {ts : List Ty} (hts : ∀ t ∈ ts, t.Fits)
    (xs : Args ts) (hlen : (encodeArgs xs).length < 2 ^ 256) :
    decodeCall selector ts (selector ++ encodeArgs xs) = some xs := by
  rw [decodeCall, List.take_left, if_pos rfl, List.drop_left, decodeArgs_encodeArgs hts xs hlen]

end Calls
end Abi

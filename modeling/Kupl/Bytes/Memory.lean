import Mathlib.Data.List.Basic

/-!
# Bytes

A memory is a byte for every address. Words are stored with the least significant byte first.
`load_store_self` and `load_store_ne` say what a store does to the loads after it.

The members of a structure lie one behind the other, each at the next multiple of its size: `offsets`.

When the blocks that are copied come from places that a map names, and no block is written where another one is read,
a sequence of copies does what the map says wherever a block was written, in any order and however the blocks overlap
where they are written (`Copy.exec_apply`).
-/

namespace Kupl.Bytes

/-- A byte for every address. -/
abbrev Memory := Nat → BitVec 8

/-- The word of `n` bytes at an address. -/
def load (m : Memory) : Nat → (n : Nat) → BitVec (8 * n)
  | _, 0 => 0#0
  | a, n + 1 => (load m (a + 1) n ++ m a : BitVec (8 * n + 8))

/-- Writes a word of `n` bytes. -/
def store (m : Memory) (a n : Nat) (v : BitVec (8 * n)) : Memory := fun x =>
  if a ≤ x ∧ x < a + n then v.extractLsb' (8 * (x - a)) 8 else m x

/-- The next multiple of a size. -/
def alignUp (pos size : Nat) : Nat := (pos + size - 1) / size * size

/-- Where members of the given sizes lie from a position on. -/
def offsets : Nat → List Nat → List Nat
  | _, [] => []
  | pos, size :: sizes => alignUp pos size :: offsets (alignUp pos size + size) sizes

variable {m m' : Memory} {a b n k : Nat} {v : BitVec (8 * n)}

lemma getLsbD_load {i : Nat} : (load m a n).getLsbD i = (decide (i < 8 * n) && (m (a + i / 8)).getLsbD (i % 8)) := by
  induction n generalizing a i with
  | zero => simp [load]
  | succ n ih =>
    show (load m (a + 1) n ++ m a : BitVec (8 * n + 8)).getLsbD i = _
    rw [BitVec.getLsbD_append, ih]
    by_cases low : i < 8
    · have hi : i / 8 = 0 := by omega
      have hm : i % 8 = i := by omega
      have hn : i < 8 * (n + 1) := by omega
      simp [low, hi, hm, hn]
    · have hd : a + 1 + (i - 8) / 8 = a + i / 8 := by omega
      have hm : (i - 8) % 8 = i % 8 := by omega
      have hn : (i - 8 < 8 * n) ↔ i < 8 * (n + 1) := by omega
      simp [low, hd, hm, hn]

/-- A load depends on its own bytes only. -/
lemma load_congr (h : ∀ x, a ≤ x → x < a + n → m x = m' x) : load m a n = load m' a n := by
  refine BitVec.eq_of_getLsbD_eq fun i hi => ?_
  rw [getLsbD_load, getLsbD_load, h (a + i / 8) (by omega) (by omega)]

/-- A word is read back as it was written. -/
@[simp] lemma load_store_self : load (store m a n v) a n = v := by
  refine BitVec.eq_of_getLsbD_eq fun i hi => ?_
  have inside : a ≤ a + i / 8 ∧ a + i / 8 < a + n := by omega
  have at_ : 8 * (a + i / 8 - a) + i % 8 = i := by omega
  rw [getLsbD_load, store, if_pos inside, BitVec.getLsbD_extractLsb', at_]
  have byte : i % 8 < 8 := by omega
  simp [hi, byte]

/-- A store leaves the words beside it. -/
lemma load_store_ne (h : b + k ≤ a ∨ a + n ≤ b) : load (store m a n v) b k = load m b k := by
  refine load_congr fun x low high => ?_
  have outside : ¬(a ≤ x ∧ x < a + n) := by omega
  exact if_neg outside

/-! ## Copies of blocks -/

/-- A block of bytes and where it is copied to. -/
structure Copy where
  dst : Nat
  src : Nat
  len : Nat

namespace Copy

/-- The memory after a copy. -/
def run (m : Memory) (c : Copy) : Memory := fun x => if c.dst ≤ x ∧
    x < c.dst + c.len then m (c.src + (x - c.dst)) else m x

/-- The memory after a sequence of copies. -/
def exec (m : Memory) (cs : List Copy) : Memory := cs.foldl run m

def Writes (c : Copy) (x : Nat) : Prop := c.dst ≤ x ∧ x < c.dst + c.len

def Reads (c : Copy) (x : Nat) : Prop := c.src ≤ x ∧ x < c.src + c.len

/-- A copy takes the byte at an address to another address. -/
def Takes (c : Copy) (src dst : Nat) : Prop := c.Writes dst ∧ c.src + (dst - c.dst) = src

variable {m : Memory} {cs cs' : List Copy} {f : Nat → Nat} {x : Nat}

/-- The copies take every byte from where a map says, and read nothing that they write. -/
structure Follow (cs : List Copy) (f : Nat → Nat) : Prop where
  place : ∀ c ∈ cs, ∀ x, c.Writes x → f x = c.src + (x - c.dst)
  apart : ∀ c ∈ cs, ∀ c' ∈ cs, ∀ x, c.Reads x → ¬ c'.Writes x

lemma run_apply (c : Copy) : run m c x = if c.dst ≤ x ∧ x < c.dst + c.len then m (c.src + (x - c.dst)) else m x :=
  rfl

/-- What is at an address after the copies. -/
lemma exec_apply (F : Follow cs f) :
    ((∃ c ∈ cs, c.Writes x) → exec m cs x = m (f x)) ∧
    ((∀ c ∈ cs, ¬ c.Writes x) → exec m cs x = m x) := by
  induction cs generalizing m with
  | nil => exact ⟨fun ⟨_, mem, _⟩ => (nomatch mem), fun _ => rfl⟩
  | cons c cs ih =>
    have tail : Follow cs f :=
      ⟨fun c' mem => F.place c' (List.mem_cons_of_mem _ mem),
        fun c' mem c'' mem' => F.apart c' (List.mem_cons_of_mem _ mem) c'' (List.mem_cons_of_mem _ mem')⟩
    obtain ⟨written, kept⟩ := ih (m := run m c) tail
    -- what a later copy reads is what was there at first
    have source (c') (mem : c' ∈ cs) (w : c'.Writes x) : run m c (f x) = m (f x) := by
      rw [run_apply, if_neg]
      have place := F.place c' (List.mem_cons_of_mem _ mem) x w
      apply F.apart c' (List.mem_cons_of_mem _ mem) c List.mem_cons_self
      rw [place]
      obtain ⟨low, high⟩ := w
      exact ⟨by omega, by omega⟩
    have here (w : c.Writes x) : run m c x = m (f x) := by
      rw [F.place c List.mem_cons_self x w]
      exact if_pos w
    by_cases later : ∃ c' ∈ cs, c'.Writes x
    · obtain ⟨c', mem, w⟩ := later
      refine ⟨fun _ => (written ⟨c', mem, w⟩).trans (source c' mem w), fun none => ?_⟩
      exact absurd w (none c' (List.mem_cons_of_mem _ mem))
    · have rest : exec m (c :: cs) x = run m c x := kept fun c' mem w => later ⟨c', mem, w⟩
      rw [rest]
      refine ⟨fun ⟨c', mem, w⟩ => ?_, fun none => ?_⟩
      · obtain rfl | mem := List.mem_cons.1 mem
        · exact here w
        · exact absurd ⟨c', mem, w⟩ later
      · rw [run_apply]
        exact if_neg (none c List.mem_cons_self)

/-- Two sequences of copies from the same places that write to the same addresses do the same. -/
lemma exec_congr (F : Follow cs f) (F' : Follow cs' f) (same : ∀ x, (∃ c ∈ cs, c.Writes x) ↔
    ∃ c ∈ cs', c.Writes x) :
    exec m cs = exec m cs' := by
  funext x
  by_cases w : ∃ c ∈ cs, c.Writes x
  · rw [(exec_apply F).1 w, (exec_apply F').1 ((same x).1 w)]
  · have w' : ¬ ∃ c ∈ cs', c.Writes x := fun h => w ((same x).2 h)
    rw [(exec_apply F).2 fun c mem h => w ⟨c, mem, h⟩, (exec_apply F').2 fun c mem h => w' ⟨c, mem, h⟩]

end Copy
end Kupl.Bytes

/-
The sending half of a sliding-window byte stream over w-bit sequence numbers.

A sender numbers the positions of its stream: position 0 is the opening mark, 1 to n are the n bytes accepted so far, and
n + 1 is the closing mark. What it has sent and not seen acknowledged is a list of pieces, each a run of consecutive
positions; what it has accepted and not sent is a queue. The receiving side acknowledges a position, all before it
included, and may do so in the middle of a piece.

- `At isn acc p x`: the piece `x` is what the stream with bytes `acc` carries from position `p` on. It stays so when the
  stream grows (`At.mono`) and when data is cut at either end (`At.cutFront`, `At.cutBack`).
- `cut n l`: what is left of the pieces `l` when n more positions are acknowledged.
- `Sender.Inv`: the pieces in flight are consecutive from `una` to `nxt`, their bytes followed by the queue are the bytes
  not yet acknowledged, and the marks are in flight exactly in the opening and the closing phase.
- `Inv.ack`, `Inv.push`, `Inv.pushFin`, `Inv.accept`, `Inv.wantClose`: the operations of a sender keep it.
- `Step.boundary`: a position that no piece in flight crosses stays one until it is acknowledged.
Nothing is assumed about who acknowledges: an acknowledgment is any number in the window.
-/
import FipsTcp.Lib.Serial
import FipsTcp.Lib.Stream

namespace SendWindow

open Serial Stream

variable {w : ℕ} {α : Type*}

/-- a run of consecutive stream positions -/
structure Piece (w : ℕ) (α : Type*) where
  seq : BitVec w
  payload : List α
  syn : Bool
  fin : Bool

namespace Piece

/-- the number of positions a piece covers -/
def len (x : Piece w α) : ℕ := x.payload.length + x.syn.toNat + x.fin.toNat

/-- a piece without marks, with at least one byte -/
structure IsData (x : Piece w α) : Prop where
  syn : x.syn = false
  fin : x.fin = false
  payload : x.payload ≠ []

structure IsSyn (x : Piece w α) : Prop where
  syn : x.syn = true
  fin : x.fin = false
  payload : x.payload = []

structure IsFin (x : Piece w α) : Prop where
  syn : x.syn = false
  fin : x.fin = true
  payload : x.payload = []

theorem IsData.len {x : Piece w α} (h : x.IsData) : x.len = x.payload.length := by simp [Piece.len, h.syn, h.fin]

theorem IsSyn.len {x : Piece w α} (h : x.IsSyn) : x.len = 1 := by simp [Piece.len, h.syn, h.fin, h.payload]

theorem IsFin.len {x : Piece w α} (h : x.IsFin) : x.len = 1 := by simp [Piece.len, h.syn, h.fin, h.payload]

end Piece

/-- the positions that a list of pieces covers -/
def total (l : List (Piece w α)) : ℕ := (l.map Piece.len).sum

/-- the bytes that a list of pieces carries -/
def bytes (l : List (Piece w α)) : List α := l.flatMap Piece.payload

@[simp] theorem total_nil : total ([] : List (Piece w α)) = 0 := rfl
@[simp] theorem total_cons (x : Piece w α) (l : List (Piece w α)) : total (x :: l) = x.len + total l := by simp [total]
@[simp] theorem total_append (l m : List (Piece w α)) : total (l ++ m) = total l + total m := by simp [total]
@[simp] theorem bytes_nil : bytes ([] : List (Piece w α)) = [] := rfl
@[simp] theorem bytes_cons (x : Piece w α) (l : List (Piece w α)) : bytes (x :: l) = x.payload ++ bytes l := by
  simp [bytes]
@[simp] theorem bytes_append (l m : List (Piece w α)) : bytes (l ++ m) = bytes l ++ bytes m := by simp [bytes]

theorem total_data {l : List (Piece w α)} (h : ∀ x ∈ l, x.IsData) : total l = (bytes l).length := by
  induction l with
  | nil => rfl
  | cons x l ih =>
    rw [total_cons, bytes_cons, List.length_append, (h x List.mem_cons_self).len,
      ih fun y hy => h y (List.mem_cons_of_mem x hy)]

/-! ## Pieces of the stream -/

/-- `x` is what the stream with bytes `acc` carries from position `p` on -/
structure At (isn : BitVec w) (acc : List α) (p : ℕ) (x : Piece w α) : Prop where
  seq : x.seq = pos isn p
  syn : x.syn = true → p = 0 ∧ x.payload = [] ∧ x.fin = false
  data : x.syn = false → 0 < p ∧ Occurs acc (p - 1) x.payload
  fin : x.fin = true → p + x.payload.length = acc.length + 1

namespace At

variable {isn : BitVec w} {acc : List α} {p : ℕ} {x : Piece w α}

theorem mono {acc' : List α} (h : At isn acc p x) (ha : acc <+: acc') (hf : x.fin = true → acc' = acc) :
    At isn acc' p x := by
  refine ⟨h.seq, h.syn, fun hs => ⟨(h.data hs).1, ?_⟩, fun hx => by rw [hf hx]; exact h.fin hx⟩
  obtain ⟨t, rfl⟩ := ha
  exact (h.data hs).2.append t

/-- cutting k bytes off the front of a piece -/
theorem cutFront (h : At isn acc p x) (hs : x.syn = false) {k : ℕ} (hk : k ≤ x.payload.length) :
    At isn acc (p + k) { x with seq := pos isn (p + k), payload := x.payload.drop k } := by
  obtain ⟨hp, ho⟩ := h.data hs
  refine ⟨rfl, fun hs' => absurd hs' (by simp [hs]), fun _ => ⟨by omega, ?_⟩, fun hf => ?_⟩
  · rw [show p + k - 1 = p - 1 + k by omega]; exact ho.drop k
  · have := h.fin hf
    simp only [List.length_drop]; omega

/-- cutting a piece down to its first k bytes; it keeps its closing mark only when it keeps all bytes -/
theorem cutBack (h : At isn acc p x) (hs : x.syn = false) {k : ℕ} {f : Bool}
    (hf : f = true → x.fin = true ∧ x.payload.length ≤ k) :
    At isn acc p { x with payload := x.payload.take k, fin := f } := by
  obtain ⟨hp, ho⟩ := h.data hs
  refine ⟨h.seq, fun hs' => absurd hs' (by simp [hs]), fun _ => ⟨hp, ho.take k⟩, fun hf' => ?_⟩
  obtain ⟨h1, h2⟩ := hf hf'
  have := h.fin h1
  simp only [List.length_take]; omega

end At

/-- the pieces lie one after the other from position `p` on -/
def Chain (isn : BitVec w) (acc : List α) : ℕ → List (Piece w α) → Prop
  | _, [] => True
  | p, x :: l => At isn acc p x ∧ 0 < x.len ∧ Chain isn acc (p + x.len) l

namespace Chain

variable {isn : BitVec w} {acc : List α} {p : ℕ} {l m : List (Piece w α)}

theorem append_iff : Chain isn acc p (l ++ m) ↔ Chain isn acc p l ∧ Chain isn acc (p + total l) m := by
  induction l generalizing p with
  | nil => simp [Chain]
  | cons x l ih => simp only [List.cons_append, Chain, ih, total_cons, Nat.add_assoc, and_assoc]

theorem mono {acc' : List α} (h : Chain isn acc p l) (ha : acc <+: acc') (hf : ∀ x ∈ l, x.fin = true → acc' = acc) :
    Chain isn acc' p l := by
  induction l generalizing p with
  | nil => trivial
  | cons x l ih =>
    exact ⟨h.1.mono ha (hf x List.mem_cons_self), h.2.1, ih h.2.2 fun y hy => hf y (List.mem_cons_of_mem x hy)⟩

theorem len_pos (h : Chain isn acc p l) {x : Piece w α} (hx : x ∈ l) : 0 < x.len := by
  induction l generalizing p with
  | nil => cases hx
  | cons y l ih =>
    rcases List.mem_cons.1 hx with rfl | hx
    · exact h.2.1
    · exact ih h.2.2 hx

theorem eq_nil_iff (h : Chain isn acc p l) : l = [] ↔ total l = 0 := by
  cases l with
  | nil => simp
  | cons x l =>
    have := h.2.1
    rw [total_cons]
    exact ⟨(fun hn => nomatch hn), fun h0 => by omega⟩

/-- each piece of a chain lies somewhere in the stretch the chain covers -/
theorem mem (h : Chain isn acc p l) {x : Piece w α} (hx : x ∈ l) :
    ∃ q, p ≤ q ∧ q + x.len ≤ p + total l ∧ At isn acc q x := by
  induction l generalizing p with
  | nil => cases hx
  | cons y l ih =>
    rcases List.mem_cons.1 hx with rfl | hx
    · exact ⟨p, le_rfl, by rw [total_cons]; omega, h.1⟩
    · obtain ⟨q, hq, hq', ha⟩ := ih h.2.2 hx
      exact ⟨q, by omega, by rw [total_cons]; omega, ha⟩

end Chain

/-! ## Acknowledging positions -/

/-- what is left when the first `n` positions are acknowledged -/
def cut : ℕ → List (Piece w α) → List (Piece w α)
  | _, [] => []
  | n, x :: l =>
    if x.len ≤ n then cut (n - x.len) l
    else if n = 0 then x :: l
    else { x with seq := x.seq + BitVec.ofNat w n, payload := x.payload.drop n } :: l

section Cut

variable {isn : BitVec w} {acc : List α} {p : ℕ} {l : List (Piece w α)} {n : ℕ}

/-- a piece that an acknowledgment can split is data: a mark is a single position -/
theorem len_split {x : Piece w α} (h : At isn acc p x) (hfin : x.fin = true → x.payload = []) (h0 : n ≠ 0)
    (hn : n < x.len) : x.syn = false ∧ x.fin = false ∧ n < x.payload.length := by
  unfold Piece.len at hn
  cases hs : x.syn with
  | true =>
    obtain ⟨-, h2, h3⟩ := h.syn hs
    simp [hs, h2, h3] at hn; omega
  | false =>
    cases hf : x.fin with
    | true => simp [hs, hf, hfin hf] at hn; omega
    | false => simp [hs, hf] at hn; exact ⟨rfl, rfl, hn⟩

theorem total_cut (hc : Chain isn acc p l) (hfin : ∀ x ∈ l, x.fin = true → x.payload = []) (hn : n ≤ total l) :
    total (cut n l) = total l - n := by
  induction l generalizing p n with
  | nil => simp [cut]
  | cons x l ih =>
    rw [total_cons] at hn
    unfold cut
    split_ifs with h1 h2
    · rw [ih hc.2.2 (fun y hy => hfin y (List.mem_cons_of_mem x hy)) (by omega), total_cons]; omega
    · simp [h2]
    · obtain ⟨hs, hf, hlt⟩ := len_split hc.1 (hfin x List.mem_cons_self) h2 (by omega)
      have hx : x.len = x.payload.length := by simp [Piece.len, hs, hf]
      simp only [total_cons, hx]
      simp only [Piece.len, List.length_drop, hs, hf, Bool.toNat_false]; omega

theorem chain_cut (hc : Chain isn acc p l) (hfin : ∀ x ∈ l, x.fin = true → x.payload = []) (hn : n ≤ total l) :
    Chain isn acc (p + n) (cut n l) := by
  induction l generalizing p n with
  | nil => trivial
  | cons x l ih =>
    rw [total_cons] at hn
    unfold cut
    split_ifs with h1 h2
    · have := ih hc.2.2 (fun y hy => hfin y (List.mem_cons_of_mem x hy)) (n := n - x.len) (by omega)
      rwa [show p + x.len + (n - x.len) = p + n by omega] at this
    · rw [h2]; exact hc
    · obtain ⟨hs, hf, hlt⟩ := len_split hc.1 (hfin x List.mem_cons_self) h2 (by omega)
      have hx : x.len = x.payload.length := by simp [Piece.len, hs, hf]
      have hat := hc.1.cutFront hs hlt.le
      rw [pos_add, ← hc.1.seq] at hat
      refine ⟨hat, ?_, ?_⟩
      · simp only [Piece.len, List.length_drop]; omega
      · have hlen : p + n + (x.payload.length - n) = p + x.len := by omega
        simpa [Piece.len, hs, hf, hlen] using hc.2.2

/-- the bytes left are the last bytes there were -/
theorem bytes_cut (hc : Chain isn acc p l) (hfin : ∀ x ∈ l, x.fin = true → x.payload = []) :
    bytes (cut n l) = (bytes l).drop ((bytes l).length - (bytes (cut n l)).length) ∧
      (bytes (cut n l)).length ≤ (bytes l).length := by
  induction l generalizing p n with
  | nil => simp [cut]
  | cons x l ih =>
    unfold cut
    split_ifs with h1 h2
    · obtain ⟨he, hle⟩ := ih (n := n - x.len) hc.2.2 fun y hy => hfin y (List.mem_cons_of_mem x hy)
      refine ⟨?_, by rw [bytes_cons, List.length_append]; omega⟩
      rw [bytes_cons, List.length_append, Nat.add_sub_assoc hle, List.drop_length_add_append]
      exact he
    · simp
    · obtain ⟨-, -, hlt⟩ := len_split hc.1 (hfin x List.mem_cons_self) h2 (by omega)
      refine ⟨?_, by simp⟩
      simp only [bytes_cons, List.length_append, List.length_drop]
      rw [show x.payload.length + (bytes l).length - (x.payload.length - n + (bytes l).length) = n by omega,
        List.drop_append_of_le_length hlt.le]

theorem cut_data (h : ∀ x ∈ l, x.IsData) : ∀ x ∈ cut n l, x.IsData := by
  induction l generalizing n with
  | nil => simp [cut]
  | cons x l ih =>
    have hx := h x List.mem_cons_self
    have hl : ∀ y ∈ l, y.IsData := fun y hy => h y (List.mem_cons_of_mem x hy)
    unfold cut
    split_ifs with h1 h2
    · exact ih hl
    · exact h
    · intro y hy
      rcases List.mem_cons.1 hy with rfl | hy
      · rw [hx.len] at h1
        exact ⟨hx.syn, hx.fin, by simpa using h1⟩
      · exact hl y hy

/-- an acknowledgment of the front of a list leaves the back -/
theorem cut_append {m : List (Piece w α)} (hn : n ≤ total l) (hpos : ∀ x ∈ m, 0 < x.len) : cut n (l ++ m) = cut n l ++ m := by
  induction l generalizing n with
  | nil =>
    obtain rfl : n = 0 := Nat.le_zero.1 hn
    cases m with
    | nil => rfl
    | cons y m =>
      have hy := hpos y List.mem_cons_self
      simp only [List.nil_append, cut, if_neg (Nat.not_le_of_lt hy), if_true]
  | cons x l ih =>
    rw [total_cons] at hn
    simp only [List.cons_append, cut]
    split_ifs with h1
    · exact ih (by omega)
    · rfl
    · rfl

/-- a last single-position mark stays until everything is acknowledged -/
theorem cut_concat {f : Piece w α} (hf : f.len = 1) (hn : n ≤ total l + 1) :
    cut n (l ++ [f]) = if n = total l + 1 then [] else cut n l ++ [f] := by
  induction l generalizing n with
  | nil =>
    rw [total_nil] at hn
    rcases Nat.lt_or_ge n 1 with h | h
    · simp [cut, hf, show n = 0 by omega]
    · simp [cut, hf, show n = 1 by omega]
  | cons x l ih =>
    rw [total_cons] at hn
    simp only [List.cons_append, cut, total_cons]
    split_ifs with h1 h2 h3 h4 h5
    · rw [ih (by omega), if_pos (by omega)]
    · rw [ih (by omega), if_neg (by omega)]
    · omega
    · simp
    · omega
    · simp

end Cut

/-! ## The sender -/

inductive Phase where
  | opening
  | running
  | closing
  | closed
deriving DecidableEq, Repr

/-- the closing mark was sent -/
def Phase.finSent : Phase → Bool
  | opening | running => false
  | closing | closed => true

/-- what is in flight in each phase: the opening mark, data, data and the closing mark, nothing -/
def Phase.Shape : Phase → List (Piece w α) → Prop
  | opening, l => ∃ x : Piece w α, l = [x] ∧ x.IsSyn
  | running, l => ∀ x ∈ l, x.IsData
  | closing, l => ∃ ds f, l = ds ++ [f] ∧ (∀ x ∈ ds, Piece.IsData x) ∧ Piece.IsFin f
  | closed, l => l = []

structure Sender (w : ℕ) (α : Type*) where
  phase : Phase
  una : BitVec w
  nxt : BitVec w
  flight : List (Piece w α)
  queue : List α
  closeWanted : Bool
  accepted : ℕ
  acked : ℕ

namespace Sender

/-- the position after the last one sent, when the bytes accepted are `acc` -/
def nxtPos (acc : List α) (s : Sender w α) : ℕ := 1 + (acc.length - s.queue.length) + s.phase.finSent.toNat

/-- the first position not acknowledged -/
def unaPos (acc : List α) (s : Sender w α) : ℕ := s.nxtPos acc - total s.flight

structure Inv (isn : BitVec w) (limit : ℕ) (acc : List α) (s : Sender w α) : Prop where
  nxt : s.nxt = pos isn (s.nxtPos acc)
  una : s.una = pos isn (s.unaPos acc)
  total_le : total s.flight ≤ s.nxtPos acc
  chain : Chain isn acc (s.unaPos acc) s.flight
  room : total s.flight ≤ limit
  shape : s.phase.Shape s.flight
  idle : s.phase ≠ .running → s.queue = [] ∧ s.closeWanted = false
  fresh : s.phase = .opening → acc = []
  count : s.accepted = acc.length
  rest : bytes s.flight ++ s.queue = acc.drop s.acked
  sum : s.acked + (bytes s.flight).length + s.queue.length = acc.length

/-- an acknowledgment of everything before `a` -/
def ack (s : Sender w α) (a : BitVec w) : Sender w α :=
  let left := cut (dist s.una a) s.flight
  { s with
    una := a
    flight := left
    acked := s.acked + ((bytes s.flight).length - (bytes left).length)
    phase := match s.phase with
      | .opening => .running
      | .closing => if left = [] then .closed else .closing
      | phase => phase }

/-- send the first k bytes of the queue as one piece -/
def push (s : Sender w α) (k : ℕ) : Sender w α :=
  { s with
    nxt := s.nxt + BitVec.ofNat w (s.queue.take k).length
    flight := s.flight ++ [⟨s.nxt, s.queue.take k, false, false⟩]
    queue := s.queue.drop k }

/-- send the closing mark -/
def pushFin (s : Sender w α) : Sender w α :=
  { s with
    nxt := s.nxt + BitVec.ofNat w 1
    flight := s.flight ++ [⟨s.nxt, [], false, true⟩]
    closeWanted := false
    phase := .closing }

def accept (s : Sender w α) (l : List α) : Sender w α :=
  { s with queue := s.queue ++ l, accepted := s.accepted + l.length }

def wantClose (s : Sender w α) : Sender w α := { s with closeWanted := true }

/-- a sender that has sent its opening mark -/
def start (isn : BitVec w) : Sender w α :=
  ⟨.opening, isn, isn + BitVec.ofNat w 1, [⟨isn, [], true, false⟩], [], false, 0, 0⟩

section Facts

variable {isn : BitVec w} {limit : ℕ} {acc : List α} {s : Sender w α}

theorem Inv.queue_le (h : s.Inv isn limit acc) : s.queue.length ≤ acc.length := by have := h.sum; omega

theorem Inv.nxt_eq_add (h : s.Inv isn limit acc) : s.nxt = pos s.una (total s.flight) := by
  have := h.total_le
  rw [h.nxt, h.una, pos_pos, unaPos]; congr 1; omega

theorem Inv.fin_payload (h : s.Inv isn limit acc) : ∀ x ∈ s.flight, x.fin = true → x.payload = [] := by
  have hs := h.shape
  intro x hx hf
  cases hp : s.phase with
  | opening =>
    rw [hp] at hs
    obtain ⟨y, hy, hsyn⟩ := hs
    rw [hy, List.mem_singleton] at hx; subst hx; exact hsyn.payload
  | running => rw [hp] at hs; exact absurd hf (by simp [(hs x hx).fin])
  | closing =>
    rw [hp] at hs
    obtain ⟨ds, f, hl, hds, hfin⟩ := hs
    rw [hl, List.mem_append, List.mem_singleton] at hx
    rcases hx with hx | rfl
    · exact absurd hf (by simp [(hds x hx).fin])
    · exact hfin.payload
  | closed => rw [hp] at hs; rw [hs] at hx; cases hx

/-- a closing mark in flight means that the closing mark was sent -/
theorem Inv.fin_phase (h : s.Inv isn limit acc) {x : Piece w α} (hx : x ∈ s.flight) (hf : x.fin = true) :
    s.phase = .closing := by
  have hs := h.shape
  cases hp : s.phase with
  | opening =>
    rw [hp] at hs
    obtain ⟨y, hy, hsyn⟩ := hs
    rw [hy, List.mem_singleton] at hx; subst hx; exact absurd hf (by simp [hsyn.fin])
  | running => rw [hp] at hs; exact absurd hf (by simp [(hs x hx).fin])
  | closing => rfl
  | closed => rw [hp] at hs; rw [hs] at hx; cases hx

/-- the positions in flight are the bytes in flight and the mark of the phase -/
theorem Inv.total_eq (h : s.Inv isn limit acc) :
    total s.flight = (bytes s.flight).length + (if s.phase = .opening ∨ s.phase = .closing then 1 else 0) := by
  have hs := h.shape
  cases hp : s.phase with
  | opening =>
    rw [hp] at hs
    obtain ⟨x, hx, hsyn⟩ := hs
    simp [hx, hsyn.len, hsyn.payload]
  | running => rw [hp] at hs; simp [total_data hs]
  | closing =>
    rw [hp] at hs
    obtain ⟨ds, f, hl, hds, hf⟩ := hs
    simp [hl, hf.len, hf.payload, total_data hds]
  | closed => rw [hp] at hs; simp [show s.flight = [] from hs]

/-- the first position not acknowledged, by phase -/
theorem Inv.unaPos_eq (h : s.Inv isn limit acc) :
    s.unaPos acc = match s.phase with
      | .opening => 0
      | .running | .closing => 1 + s.acked
      | .closed => 2 + s.acked := by
  have h1 := h.total_eq
  have h2 := h.sum
  unfold unaPos nxtPos
  cases hp : s.phase with
  | opening =>
    have hq := (h.idle (by simp [hp])).1
    have := h.fresh hp
    simp [hp, hq, this, Phase.finSent] at *; omega
  | running => simp [hp, Phase.finSent] at *; omega
  | closing => simp [hp, Phase.finSent] at *; omega
  | closed => simp [hp, Phase.finSent] at *; omega

end Facts

/-! ## The operations keep the invariant -/

section Operations

variable {isn : BitVec w} {limit : ℕ} {acc : List α} {s : Sender w α}

theorem inv_start (isn : BitVec w) (hl : 0 < limit) : (start isn : Sender w α).Inv isn limit [] := by
  constructor
  case shape => exact ⟨_, rfl, rfl, rfl, rfl⟩
  case chain =>
    refine ⟨⟨?_, fun _ => ⟨?_, rfl, rfl⟩, by simp, by simp⟩, ?_, trivial⟩ <;>
      simp [start, unaPos, nxtPos, Phase.finSent, Piece.len]
  all_goals simp [start, unaPos, nxtPos, Phase.finSent, Piece.len, pos, bytes]
  omega

theorem nxtPos_ack (acc : List α) (s : Sender w α) (a : BitVec w) : (s.ack a).nxtPos acc = s.nxtPos acc := by
  unfold nxtPos ack
  cases s.phase with
  | closing => simp only; split_ifs <;> rfl
  | _ => rfl

theorem Inv.unaPos_ack (h : s.Inv isn limit acc) {a : BitVec w} (hn : dist s.una a ≤ total s.flight) :
    (s.ack a).unaPos acc = s.unaPos acc + dist s.una a := by
  have hle := h.total_le
  rw [unaPos, nxtPos_ack]
  simp only [ack, total_cut h.chain h.fin_payload hn, unaPos]; omega

/-- the pieces left are those of the phase the acknowledgment leads to -/
theorem Inv.shape_ack (h : s.Inv isn limit acc) {a : BitVec w} (h0 : 0 < dist s.una a)
    (hn : dist s.una a ≤ total s.flight) : (s.ack a).phase.Shape (s.ack a).flight := by
  have hs := h.shape
  have htot := total_cut h.chain h.fin_payload hn
  simp only [ack]
  cases hp : s.phase with
  | opening =>
    rw [hp] at hs
    obtain ⟨x, hx, hsyn⟩ := hs
    have h1 : dist s.una a = 1 := by rw [hx, total_cons, total_nil, hsyn.len] at hn; omega
    simp [Phase.Shape, hx, cut, hsyn.len, h1]
  | running => rw [hp] at hs; exact cut_data hs
  | closing =>
    rw [hp] at hs
    obtain ⟨ds, f, hl, hds, hf⟩ := hs
    have hcut : cut (dist s.una a) s.flight = if dist s.una a = total ds + 1 then [] else cut (dist s.una a) ds ++ [f] := by
      rw [hl]; exact cut_concat hf.len (by rw [hl, total_append, total_cons, total_nil, hf.len] at hn; exact hn)
    simp only [hcut]
    split_ifs with h1 h2 h3
    · rfl
    · exact absurd rfl h2
    · simp at h3
    · exact ⟨cut (dist s.una a) ds, f, rfl, cut_data hds, hf⟩
  | closed =>
    rw [hp] at hs
    rw [show s.flight = [] from hs, total_nil] at hn; omega

theorem Inv.ack (h : s.Inv isn limit acc) {a : BitVec w} (h0 : 0 < dist s.una a)
    (hn : dist s.una a ≤ total s.flight) : (s.ack a).Inv isn limit acc := by
  have hfin := h.fin_payload
  have hun := h.unaPos_ack hn
  obtain ⟨hb, hble⟩ := bytes_cut (n := dist s.una a) h.chain hfin
  have hsum := h.sum
  constructor
  case nxt => rw [nxtPos_ack]; exact h.nxt
  case una => rw [hun, ← pos_pos, ← h.una, pos_dist]; rfl
  case total_le =>
    have := h.total_le
    rw [nxtPos_ack]; simp only [Sender.ack, total_cut h.chain hfin hn]; omega
  case chain => rw [hun]; exact chain_cut h.chain hfin hn
  case room =>
    have := h.room
    simp only [Sender.ack, total_cut h.chain hfin hn]; omega
  case shape => exact h.shape_ack h0 hn
  case idle =>
    intro hph
    refine h.idle fun hr => hph ?_
    simp [Sender.ack, hr]
  case fresh =>
    intro hph
    simp only [Sender.ack] at hph
    cases hp : s.phase <;> simp [hp] at hph
    split_ifs at hph
  case count => exact h.count
  case rest =>
    -- the bytes left are a suffix of the bytes that were in flight
    have hr := h.rest
    simp only [Sender.ack]
    rw [hb]
    conv_rhs => rw [← List.drop_drop, ← hr]
    rw [List.drop_append_of_le_length (by omega), List.length_drop]
    congr 2; omega
  case sum => simp only [Sender.ack]; omega

theorem Inv.queue_eq (h : s.Inv isn limit acc) : s.queue = acc.drop (acc.length - s.queue.length) := by
  have hsum := h.sum
  rw [show acc.length - s.queue.length = s.acked + (bytes s.flight).length by omega, ← List.drop_drop, ← h.rest,
    List.drop_left]

theorem nxtPos_running (acc : List α) (hp : s.phase = .running) : s.nxtPos acc = 1 + (acc.length - s.queue.length) := by
  simp [nxtPos, hp, Phase.finSent]

/-- appending a piece at `nxt` moves `nxt` and leaves `una` -/
theorem unaPos_append {s' : Sender w α} {x : Piece w α} (hfl : s'.flight = s.flight ++ [x])
    (hnx : s'.nxtPos acc = s.nxtPos acc + x.len) : s'.unaPos acc = s.unaPos acc := by
  rw [unaPos, unaPos, hnx, hfl, total_append, total_cons, total_nil]; omega

theorem Inv.nxtPos_push (h : s.Inv isn limit acc) {k : ℕ} (hk : k ≤ s.queue.length) :
    (s.push k).nxtPos acc = s.nxtPos acc + k := by
  have hq := h.queue_le
  simp only [nxtPos, Sender.push, List.length_drop]; omega

theorem Inv.unaPos_push (h : s.Inv isn limit acc) {k : ℕ} (hk : k ≤ s.queue.length) :
    (s.push k).unaPos acc = s.unaPos acc := by
  refine unaPos_append rfl ?_
  rw [h.nxtPos_push hk]
  simp [Piece.len, List.length_take, hk]

theorem nxtPos_pushFin (acc : List α) (hp : s.phase = .running) : s.pushFin.nxtPos acc = s.nxtPos acc + 1 := by
  simp [nxtPos, Sender.pushFin, hp, Phase.finSent]

theorem unaPos_pushFin (acc : List α) (hp : s.phase = .running) : s.pushFin.unaPos acc = s.unaPos acc := by
  refine unaPos_append rfl ?_
  rw [nxtPos_pushFin acc hp]
  simp [Piece.len]

/-- the last piece in flight ends where nothing was sent yet -/
theorem Inv.at_last (h : s.Inv isn limit acc) {l : List (Piece w α)} {x : Piece w α} (hf : s.flight = l ++ [x]) {p : ℕ}
    (hp : s.nxtPos acc = p + x.len) : At isn acc p x := by
  have hchain := h.chain
  have htotal := h.total_le
  rw [hf, Chain.append_iff] at hchain
  rw [hf, total_append, total_cons, total_nil] at htotal
  have hpos : s.unaPos acc + total l = p := by
    rw [unaPos, hf, total_append, total_cons, total_nil]
    omega
  exact hpos ▸ hchain.2.1

/-- accepting bytes sends nothing -/
theorem Inv.pos_accept (h : s.Inv isn limit acc) (l : List α) :
    (s.accept l).nxtPos (acc ++ l) = s.nxtPos acc ∧ (s.accept l).unaPos (acc ++ l) = s.unaPos acc := by
  have hq := h.queue_le
  have hnx : (s.accept l).nxtPos (acc ++ l) = s.nxtPos acc := by
    simp only [nxtPos, Sender.accept, List.length_append]; omega
  exact ⟨hnx, by simp only [unaPos, hnx]; rfl⟩

theorem Inv.push (h : s.Inv isn limit acc) (hp : s.phase = .running) {k : ℕ} (h0 : 0 < k) (hk : k ≤ s.queue.length)
    (hroom : total s.flight + k ≤ limit) : (s.push k).Inv isn limit acc := by
  have hq := h.queue_le
  have hle := h.total_le
  have hsum := h.sum
  have htake : (s.queue.take k).length = k := by rw [List.length_take]; omega
  have hlen : (⟨s.nxt, s.queue.take k, false, false⟩ : Piece w α).len = k := by simp [Piece.len, htake]
  have hnx := h.nxtPos_push hk
  have hun := h.unaPos_push hk
  have hat : At isn acc (s.nxtPos acc) (⟨s.nxt, s.queue.take k, false, false⟩ : Piece w α) := by
    refine ⟨h.nxt, by simp, fun _ => ⟨by unfold nxtPos; omega, ?_⟩, by simp⟩
    rw [nxtPos_running acc hp, Nat.add_sub_cancel_left]
    show s.queue.take k <+: acc.drop (acc.length - s.queue.length)
    rw [← h.queue_eq]; exact List.take_prefix k _
  constructor
  case nxt => rw [hnx, pos_add, ← h.nxt]; simp [Sender.push, htake]
  case una => rw [hun]; exact h.una
  case total_le => rw [hnx]; simp only [Sender.push, total_append, total_cons, total_nil, hlen]; omega
  case chain =>
    rw [hun]
    refine Chain.append_iff.2 ⟨h.chain, ?_, by rw [hlen]; exact h0, trivial⟩
    rw [unaPos, Nat.sub_add_cancel hle]; exact hat
  case room => simp only [Sender.push, total_append, total_cons, total_nil, hlen]; omega
  case shape =>
    have hs := h.shape
    simp only [Sender.push, hp, Phase.Shape] at hs ⊢
    intro x hx
    rcases List.mem_append.1 hx with hx | hx
    · exact hs x hx
    · rw [List.mem_singleton] at hx; subst hx
      refine ⟨rfl, rfl, fun hnil => ?_⟩
      rw [show s.queue.take k = [] from hnil, List.length_nil] at htake; omega
  case idle => intro hn; exact absurd hp hn
  case fresh => exact h.fresh
  case count => exact h.count
  case rest =>
    simp only [Sender.push, bytes_append, bytes_cons, bytes_nil, List.append_nil, List.append_assoc,
      List.take_append_drop]
    exact h.rest
  case sum =>
    simp only [Sender.push, bytes_append, bytes_cons, bytes_nil, List.append_nil, List.length_append, htake,
      List.length_drop]
    omega

theorem Inv.pushFin (h : s.Inv isn limit acc) (hp : s.phase = .running) (hq : s.queue = [])
    (hroom : total s.flight + 1 ≤ limit) : s.pushFin.Inv isn limit acc := by
  have hle := h.total_le
  have hsum := h.sum
  have hlen : (⟨s.nxt, [], false, true⟩ : Piece w α).len = 1 := by simp [Piece.len]
  have hnx := nxtPos_pushFin acc hp
  have hun := unaPos_pushFin acc hp
  have hat : At isn acc (s.nxtPos acc) (⟨s.nxt, [], false, true⟩ : Piece w α) := by
    refine ⟨h.nxt, by simp, fun _ => ⟨by unfold nxtPos; omega, Occurs.nil _ _⟩, fun _ => ?_⟩
    rw [nxtPos_running acc hp, hq]; simp; omega
  constructor
  case nxt => rw [hnx, pos_add, ← h.nxt]; rfl
  case una => rw [hun]; exact h.una
  case total_le => rw [hnx]; simp only [Sender.pushFin, total_append, total_cons, total_nil, hlen]; omega
  case chain =>
    rw [hun]
    refine Chain.append_iff.2 ⟨h.chain, ?_, by rw [hlen]; exact Nat.one_pos, trivial⟩
    rw [unaPos, Nat.sub_add_cancel hle]; exact hat
  case room => simp only [Sender.pushFin, total_append, total_cons, total_nil, hlen]; omega
  case shape =>
    have hs := h.shape
    rw [hp] at hs
    exact ⟨s.flight, _, rfl, hs, rfl, rfl, rfl⟩
  case idle => intro _; exact ⟨hq, rfl⟩
  case fresh => intro hc; cases hc
  case count => exact h.count
  case rest =>
    simp only [Sender.pushFin, bytes_append, bytes_cons, bytes_nil, List.append_nil]
    exact h.rest
  case sum =>
    simp only [Sender.pushFin, bytes_append, bytes_cons, bytes_nil, List.append_nil]
    exact hsum

theorem Inv.accept (h : s.Inv isn limit acc) (hp : s.phase = .running) (l : List α) :
    (s.accept l).Inv isn limit (acc ++ l) := by
  have hsum := h.sum
  obtain ⟨hnx, hun⟩ := h.pos_accept l
  constructor
  case nxt => rw [hnx]; exact h.nxt
  case una => rw [hun]; exact h.una
  case total_le => rw [hnx]; exact h.total_le
  case chain =>
    rw [hun]
    refine h.chain.mono (List.prefix_append _ _) fun x hx hf => ?_
    have := h.fin_phase hx hf
    rw [hp] at this; cases this
  case room => exact h.room
  case shape => exact h.shape
  case idle => intro hn; exact absurd hp hn
  case fresh => intro hc; rw [show (s.accept l).phase = s.phase from rfl, hp] at hc; cases hc
  case count => simp only [Sender.accept, List.length_append, h.count]
  case rest =>
    simp only [Sender.accept]
    rw [← List.append_assoc, h.rest, List.drop_append_of_le_length (by omega)]
  case sum => simp only [Sender.accept, List.length_append]; omega

theorem Inv.wantClose (h : s.Inv isn limit acc) (hp : s.phase = .running) : s.wantClose.Inv isn limit acc :=
  { h with idle := fun hn => absurd hp hn }

/-! ## Steps -/

/-- what a sender may do, other than accept bytes, when the flight is to stay within `limit` -/
inductive Step (limit : ℕ) : Sender w α → Sender w α → Prop
  | idle (s : Sender w α) : Step limit s s
  | ack (s : Sender w α) (a : BitVec w) (h0 : 0 < dist s.una a) (hn : dist s.una a ≤ total s.flight) :
      Step limit s (s.ack a)
  | push (s : Sender w α) (k : ℕ) (hp : s.phase = .running) (h0 : 0 < k) (hk : k ≤ s.queue.length)
      (hroom : total s.flight + k ≤ limit) : Step limit s (s.push k)
  | pushFin (s : Sender w α) (hp : s.phase = .running) (hq : s.queue = []) (hroom : total s.flight + 1 ≤ limit) :
      Step limit s s.pushFin
  | wantClose (s : Sender w α) (hp : s.phase = .running) : Step limit s s.wantClose

/-- **One step keeps the invariant.** -/
theorem Step.inv {s' : Sender w α} (h : Step limit s s') (hs : s.Inv isn limit acc) : s'.Inv isn limit acc := by
  cases h with
  | idle => exact hs
  | ack a h0 hn => exact hs.ack h0 hn
  | push k hp h0 hk hroom => exact hs.push hp h0 hk hroom
  | pushFin hp hq hroom => exact hs.pushFin hp hq hroom
  | wantClose hp => exact hs.wantClose hp

/-- a step sends no position back, and takes no closing mark back -/
theorem Step.mono {s' : Sender w α} (h : Step limit s s') (hs : s.Inv isn limit acc) :
    s.nxtPos acc ≤ s'.nxtPos acc ∧ (s.phase.finSent = true → s'.phase.finSent = true) := by
  cases h with
  | idle => exact ⟨le_rfl, id⟩
  | ack a h0 hn =>
    refine ⟨(nxtPos_ack acc s a).ge, fun hf => ?_⟩
    simp only [Sender.ack]
    cases hp : s.phase <;> simp only [hp, Phase.finSent, Bool.false_eq_true] at hf ⊢
    split_ifs <;> rfl
  | push k hp h0 hk hroom => exact ⟨by rw [hs.nxtPos_push hk]; omega, id⟩
  | pushFin hp hq hroom => exact ⟨by rw [nxtPos_pushFin acc hp]; omega, fun _ => rfl⟩
  | wantClose hp => exact ⟨le_rfl, id⟩

/-- only an acknowledgment moves the first position not acknowledged, by the distance that `una` moves -/
theorem Step.advance {s' : Sender w α} (h : Step limit s s') (hs : s.Inv isn limit acc) :
    s'.una = s.una ∧ s'.unaPos acc = s.unaPos acc ∨
      s'.una ≠ s.una ∧ s'.unaPos acc = s.unaPos acc + dist s.una s'.una := by
  cases h with
  | idle => exact .inl ⟨rfl, rfl⟩
  | ack a h0 hn =>
    refine .inr ⟨fun ha => ?_, hs.unaPos_ack hn⟩
    rw [show a = s.una from ha, dist_self] at h0
    exact Nat.lt_irrefl 0 h0
  | push k hp h0 hk hroom => exact .inl ⟨rfl, hs.unaPos_push hk⟩
  | pushFin hp hq hroom => exact .inl ⟨rfl, unaPos_pushFin acc hp⟩
  | wantClose hp => exact .inl ⟨rfl, rfl⟩

/-- the bytes accepted and not acknowledged -/
def held (s : Sender w α) : ℕ := (bytes s.flight).length + s.queue.length

/-- a step never holds more, and never acknowledges less -/
theorem Step.held_le {s' : Sender w α} (h : Step limit s s') (hs : s.Inv isn limit acc) :
    s'.held ≤ s.held ∧ s.acked ≤ s'.acked := by
  cases h with
  | idle => exact ⟨le_rfl, le_rfl⟩
  | ack a h0 hn =>
    have := (bytes_cut (n := dist s.una a) hs.chain hs.fin_payload).2
    exact ⟨Nat.add_le_add_right this _, Nat.le_add_right _ _⟩
  | push k hp h0 hk hroom =>
    refine ⟨?_, le_rfl⟩
    simp only [held, Sender.push, bytes_append, bytes_cons, bytes_nil, List.append_nil, List.length_append,
      List.length_take, List.length_drop]
    omega
  | pushFin hp hq hroom => exact ⟨by simp [held, Sender.pushFin], le_rfl⟩
  | wantClose hp => exact ⟨le_rfl, le_rfl⟩

/-! ## A mark on the stream -/

/-- a position that no piece in flight crosses -/
def Boundary (acc : List α) (s : Sender w α) (e : ℕ) : Prop :=
  ∃ front back, s.flight = front ++ back ∧ e = s.unaPos acc + total front

/-- what is sent next starts at a boundary -/
theorem Inv.boundary_nxt (h : s.Inv isn limit acc) : s.Boundary acc (s.nxtPos acc) := by
  have hle := h.total_le
  exact ⟨s.flight, [], (List.append_nil _).symm, by unfold unaPos; omega⟩

/-- the oldest piece ends at the boundary or before it -/
theorem Boundary.head_le {e : ℕ} (h : s.Boundary acc e) (he : s.unaPos acc < e) {x : Piece w α} (hx : x ∈ s.flight.head?) :
    s.unaPos acc + x.len ≤ e := by
  obtain ⟨front, back, hflight, rfl⟩ := h
  cases front with
  | nil => exact absurd he (by simp)
  | cons y front =>
    rw [hflight, List.cons_append, List.head?_cons, Option.mem_some_iff] at hx
    rw [total_cons, hx]
    omega

/-- **A boundary stays one** until it is acknowledged. -/
theorem Step.boundary {s' : Sender w α} (h : Step limit s s') (hs : s.Inv isn limit acc) {e : ℕ} (hb : s.Boundary acc e)
    (he : s'.unaPos acc ≤ e) : s'.Boundary acc e := by
  obtain ⟨front, back, hflight, rfl⟩ := hb
  cases h with
  | idle => exact ⟨front, back, hflight, rfl⟩
  | ack a h0 hn =>
    have hchain := hs.chain
    rw [hflight, Chain.append_iff] at hchain
    have hpos := hs.unaPos_ack hn
    have hfront : dist s.una a ≤ total front := by omega
    have hfin : ∀ x ∈ front, x.fin = true → x.payload = [] := fun x hx =>
      hs.fin_payload x (by rw [hflight]; exact List.mem_append_left back hx)
    refine ⟨cut (dist s.una a) front, back, ?_, ?_⟩
    · rw [← cut_append hfront fun x hx => hchain.2.len_pos hx, ← hflight]
      rfl
    · rw [total_cut hchain.1 hfin hfront, hpos]
      omega
  | push k hp h0 hk =>
    refine ⟨front, back ++ [⟨s.nxt, s.queue.take k, false, false⟩], ?_, by rw [hs.unaPos_push hk]⟩
    rw [← List.append_assoc, ← hflight]
    rfl
  | pushFin hp =>
    refine ⟨front, back ++ [⟨s.nxt, [], false, true⟩], ?_, by rw [unaPos_pushFin acc hp]⟩
    rw [← List.append_assoc, ← hflight]
    rfl
  | wantClose => exact ⟨front, back, hflight, rfl⟩

theorem Boundary.accept {e : ℕ} (h : s.Boundary acc e) (hs : s.Inv isn limit acc) (l : List α) :
    (s.accept l).Boundary (acc ++ l) e := by
  obtain ⟨front, back, hflight, rfl⟩ := h
  exact ⟨front, back, hflight, by rw [(hs.pos_accept l).2]⟩

end Operations

end Sender

end SendWindow

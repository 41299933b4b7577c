import VmopsBench.Platform.Pages

/-!
# The page table

The threads of a benchmark share one address space. `VmopsBench.pageTable` is what
their mapping calls, in the order in which they were answered, make of its page
table: for each page whose mapping it is and what its permission is. A call that reports an
error changes nothing.

A call changes the pages of one range (`VmopsBench.ThreadCall.range`) and no
others. So a page that only one thread's calls touch is as that thread's calls
have left it, whatever they were interleaved with (`VmopsBench.pageTable_filter`).
-/

namespace VmopsBench

open Interact

/-- **An entry of the page table**: the thread whose mapping it is, and the permission. -/
structure Mapping where
  owner : ℕ
  perm : PlatPerm
  deriving DecidableEq

/-- **The page table.** -/
abbrev PageTable := Page → Option Mapping

/-- The range that a call changes. -/
def ThreadCall.range : (c : ThreadCall) → c.Resp → Option (Addr × SizeT)
  | .vmMap size .., r => r.map fun addr => (addr, size)
  | .vmMapFixed addr size .., r | .vmProtect addr size _, r | .vmUnmap addr size, r =>
    if r then some (addr, size) else none
  | .calloc .., _ | .getTime, _ | .loadDone, _ | .free, _ | .barrier _, _ | .storeDone _, _
  | .increment _, _ | .readThread, _ => none

/-- What a call of thread `i` makes of an entry in that range. -/
def ThreadCall.entry (i : ℕ) : ThreadCall → Option Mapping → Option Mapping
  | .vmMap .., _ | .vmMapFixed .., _ => some ⟨i, .readWrite⟩
  | .vmProtect _ _ perms, m => m.map fun m => { m with perm := perms }
  | .vmUnmap .., _ => none
  | _, m => m

/-- The page table after a call of thread `i`. -/
def ThreadCall.apply (i : ℕ) (c : ThreadCall) (r : c.Resp) (table : PageTable) : PageTable :=
  match c.range r with
  | none => table
  | some (addr, size) => fun p =>
    if p ∈ pagesOf addr size.toNat then c.entry i (table p) else table p

/-- The calls of the threads, each with the thread that made it. -/
abbrev History := List (ℕ × Event threadSig)

/-- **The page table after some calls.** -/
def pageTable (h : History) : PageTable :=
  h.foldl (fun table x => x.2.call.apply x.1 x.2.resp table) fun _ => none

section Lemmas

variable {i : ℕ} {c : ThreadCall} {r : c.Resp} {table table' : PageTable} {p : Page}

theorem apply_of_range {addr : Addr} {size : SizeT} (h : c.range r = some (addr, size)) :
    c.apply i r table p =
      if p ∈ pagesOf addr size.toNat then c.entry i (table p) else table p := by
  rw [ThreadCall.apply, h]

theorem apply_of_range_none (h : c.range r = none) : c.apply i r table = table := by
  rw [ThreadCall.apply, h]

/-- The call changes the page. -/
def Event.Touches (e : Event threadSig) (p : Page) : Prop :=
  ∃ addr size, e.call.range e.resp = some (addr, size) ∧ p ∈ pagesOf addr size.toNat

/-- A page outside the range of a call stays as it is. -/
theorem apply_of_not_touches (h : ¬Event.Touches ⟨c, r⟩ p) : c.apply i r table p = table p := by
  cases hrange : c.range r with
  | none => rw [apply_of_range_none hrange]
  | some a =>
    rw [apply_of_range hrange, if_neg fun hp => h ⟨a.1, a.2, hrange, hp⟩]

/-- What a call makes of a page depends on the entry of that page only. -/
theorem apply_congr (h : table p = table' p) : c.apply i r table p = c.apply i r table' p := by
  cases hrange : c.range r with
  | none => rwa [apply_of_range_none hrange, apply_of_range_none hrange]
  | some a => rw [apply_of_range hrange, apply_of_range hrange, h]

@[simp] theorem pageTable_concat (h : History) (x : ℕ × Event threadSig) :
    pageTable (h ++ [x]) = x.2.call.apply x.1 x.2.resp (pageTable h) := by
  simp [pageTable]

/-- **A page that nobody else touches is as thread `i` has left it.** -/
theorem pageTable_filter {h : History} (hother : ∀ x ∈ h, x.1 ≠ i → ¬Event.Touches x.2 p) :
    pageTable h p = pageTable (h.filter fun x => x.1 = i) p := by
  induction h using List.reverseRecOn with
  | nil => rfl
  | append_singleton h x ih =>
    have hih := ih fun y hy => hother y (List.mem_append_left _ hy)
    rw [pageTable_concat, List.filter_append]
    by_cases hx : x.1 = i
    · rw [List.filter_cons_of_pos (by simpa using hx), List.filter_nil, pageTable_concat]
      exact apply_congr hih
    · rw [List.filter_cons_of_neg (by simpa using hx), List.filter_nil, List.append_nil, ← hih]
      exact apply_of_not_touches (hother x (by simp) hx)

end Lemmas

end VmopsBench

import Mathlib.Data.List.Range
import Pepal.Lib.Turns

/-!
# The blocks on the page

`refreshBlockchain` of `webUI/js/app.js` clears the page and asks for the number
of blocks, `getBlock` then asks for the blocks one after the other and appends
each as it comes. Every click that submits a transaction refreshes the page, and
nothing stops the refresh before it: the answers of all refreshes come in any
order, and all append to one `blockchainDiv`.

A refresh is a process that waits for the answers to its requests. The page is
the list of the numbers of the blocks on it. Of an answer only the number of
blocks matters; a request that fails has no answer, and its refresh ends.
-/

namespace Pepal.Web

/-- What a refresh waits for: that it is called, the number of blocks, or a block
of as many. -/
inductive Refresh where
  | called
  | height
  | block (blocknum total_num : ℕ)
deriving DecidableEq

abbrev Page : Type := List ℕ

abbrev Browser : Type := Turns.System Page Refresh Empty

abbrev Event : Type := Turns.Event Refresh (Option ℕ)

def getBlock (blocknum total_num : ℕ) (blockchainDiv : Page) : Turns.Turn Page Refresh Empty :=
  if blocknum ≥ total_num then ⟨blockchainDiv, none, []⟩
  else ⟨blockchainDiv, some (.block blocknum total_num), []⟩

def turn : Refresh → Option ℕ → Page → Turns.Turn Page Refresh Empty
  | .called, _, _ => ⟨[], some .height, []⟩
  | .height, some number_of_blocks, blockchainDiv => getBlock 0 number_of_blocks blockchainDiv
  | .block blocknum total_num, some _, blockchainDiv =>
      getBlock (blocknum + 1) total_num (blockchainDiv ++ [blocknum])
  | _, none, blockchainDiv => ⟨blockchainDiv, none, []⟩

def browse (s : Browser) (events : List Event) : Browser := Runs.run (Turns.next turn) s events

/-! ## A refresh among others -/

section Refreshes

variable {s : Browser} {i j h : ℕ} {e : Event}

/-- The refresh waits for an answer. -/
def Loading (s : Browser) (j : ℕ) : Prop := ∃ p, s.process j = some p ∧ p ≠ .called

/-- No refresh is called, the requests succeed, there are blocks, and refresh `i`
is told that there are `h`. -/
def Fetches (i h : ℕ) (s : Browser) : Event → Prop
  | .start p => p = .called
  | .answer j reply => s.process j ≠ some .called ∧ (∃ n, reply = some n ∧ 0 < n) ∧
      (j = i → s.process i = some .height → reply = some h)

/-- The number of blocks that a refresh has shown, of the `h` that it is to show. -/
def shownBy (h : ℕ) : Option Refresh → Option ℕ
  | some .called => none
  | some .height => some 0
  | some (.block blocknum total_num) =>
      if total_num = h ∧ blocknum < h then some blocknum else none
  | none => some h

/-- What a step does to the page: nothing, or it shows the next block of refresh
`i`, or a block of another one. -/
inductive Shows (i h k : ℕ) (s s' : Browser) : Prop
  | nothing (hpage : s'.shared = s.shared) (hshown : shownBy h (s'.process i) = some k)
      (hothers : ∀ j ≠ i, Loading s' j ↔ Loading s j)
  | own (hpage : s'.shared = s.shared ++ [k]) (hshown : shownBy h (s'.process i) = some (k + 1))
      (hothers : ∀ j ≠ i, Loading s' j ↔ Loading s j)
  | other (j m : ℕ) (hj : j ≠ i) (hloading : Loading s j) (hpage : s'.shared = s.shared ++ [m])
      (hshown : shownBy h (s'.process i) = some k)

/-- `getBlock` after `k` blocks. -/
theorem shownBy_getBlock {k : ℕ} (hk : k ≤ h) (page : Page) :
    shownBy h (getBlock k h page).process = some k ∧ (getBlock k h page).shared = page := by
  unfold getBlock
  split
  · obtain rfl : k = h := by omega
    exact ⟨rfl, rfl⟩
  · exact ⟨if_pos ⟨rfl, by omega⟩, rfl⟩

theorem loading_start (s : Browser) (j : ℕ) :
    Loading (Turns.next turn s (.start .called)) j ↔ Loading s j := by
  unfold Loading
  rw [Turns.process_start]
  split
  · rename_i hlast
    have hnone : s.process j = none := by
      rw [Turns.System.process, hlast, List.getElem?_eq_none le_rfl]
      rfl
    rw [hnone]
    constructor
    · rintro ⟨p, ⟨⟩, hp⟩
      exact absurd rfl hp
    · rintro ⟨p, ⟨⟩, -⟩
  · exact Iff.rfl

/-- A turn of one refresh leaves the others waiting as they do. -/
theorem loading_answer {p : Refresh} (hi : s.process i = some p) (reply : Option ℕ) (hj : j ≠ i) :
    Loading (Turns.next turn s (.answer i reply)) j ↔ Loading s j := by
  unfold Loading
  rw [Turns.process_answer hi, if_neg hj]

theorem loading_getBlock {n : ℕ} (hn : 0 < n) (page : Page) :
    (getBlock 0 n page).process = some (.block 0 n) ∧ (getBlock 0 n page).shared = page := by
  unfold getBlock
  rw [if_neg (by omega)]
  exact ⟨rfl, rfl⟩

/-- The answer to refresh `i` itself. -/
theorem step_shows_own {k n : ℕ} {p : Refresh} (hp : s.process i = some p)
    (hheight : p = .height → n = h) (hk : shownBy h (some p) = some k) :
    Shows i h k s (Turns.next turn s (.answer i (some n))) := by
  have hothers : ∀ j ≠ i, Loading (Turns.next turn s (.answer i (some n))) j ↔ Loading s j :=
    fun j hj => loading_answer hp (some n) hj
  cases p with
  | called => cases hk
  | height =>
      obtain rfl := hheight rfl
      obtain rfl := Option.some.inj hk
      obtain ⟨hshown, hpage⟩ := shownBy_getBlock (Nat.zero_le n) s.shared
      refine .nothing ?_ ?_ hothers
      · rw [Turns.next_answer hp]
        exact hpage
      · rw [Turns.process_answer hp, if_pos rfl]
        exact hshown
  | block blocknum total_num =>
      obtain ⟨⟨rfl, hlt⟩, hshows⟩ := Option.ite_none_right_eq_some.mp hk
      obtain rfl := Option.some.inj hshows
      obtain ⟨hshown, hpage⟩ := shownBy_getBlock hlt (s.shared ++ [blocknum])
      refine .own ?_ ?_ hothers
      · rw [Turns.next_answer hp]
        exact hpage
      · rw [Turns.process_answer hp, if_pos rfl]
        exact hshown

/-- The answer to another refresh. -/
theorem step_shows_other {k n : ℕ} {p : Refresh} (hp : s.process j = some p) (hj : j ≠ i)
    (hcalled : p ≠ .called) (hn : 0 < n) (hk : shownBy h (s.process i) = some k) :
    Shows i h k s (Turns.next turn s (.answer j (some n))) := by
  have hshown : shownBy h ((Turns.next turn s (.answer j (some n))).process i) = some k := by
    rw [Turns.process_answer hp, if_neg hj.symm]
    exact hk
  cases p with
  | called => exact absurd rfl hcalled
  | height =>
      obtain ⟨hprocess, hpage⟩ := loading_getBlock hn s.shared
      refine .nothing ?_ hshown ?_
      · rw [Turns.next_answer hp]
        exact hpage
      · intro j' hj'
        by_cases hsame : j' = j
        · subst hsame
          refine iff_of_true ⟨.block 0 n, ?_, nofun⟩ ⟨.height, hp, nofun⟩
          rw [Turns.process_answer hp, if_pos rfl]
          exact hprocess
        · exact loading_answer hp (some n) hsame
  | block blocknum total_num =>
      refine .other j blocknum hj ⟨_, hp, hcalled⟩ ?_ hshown
      rw [Turns.next_answer hp]
      show (getBlock _ _ _).shared = _
      unfold getBlock
      split
      · rfl
      · rfl

theorem step_shows {k : ℕ} (hi : i < s.processes.length) (hfetches : Fetches i h s e)
    (hk : shownBy h (s.process i) = some k) : Shows i h k s (Turns.next turn s e) := by
  cases e with
  | start p =>
      obtain rfl : p = .called := hfetches
      refine .nothing rfl ?_ fun j _ => loading_start s j
      rw [Turns.process_start, if_neg hi.ne]
      exact hk
  | answer j reply =>
      obtain ⟨hcalled, ⟨n, rfl, hn⟩, hheight⟩ := hfetches
      cases hp : s.process j with
      | none =>
          rw [Turns.next_answer_none hp]
          exact .nothing rfl hk fun j _ => Iff.rfl
      | some p =>
          by_cases hj : j = i
          · subst hj
            rw [hp] at hk
            refine step_shows_own hp ?_ hk
            rintro rfl
            exact Option.some.inj (hheight rfl hp)
          · refine step_shows_other hp hj ?_ hn hk
            rintro rfl
            exact hcalled hp

/-! ## What the page shows -/

/-- The blocks that refresh `i` has shown are on the page, in their order. -/
structure Showing (i h k : ℕ) (s : Browser) : Prop where
  started : i < s.processes.length
  shown : shownBy h (s.process i) = some k
  sublist : (List.range k).Sublist s.shared

theorem Showing.step {k : ℕ} (hs : Showing i h k s) (hfetches : Fetches i h s e) :
    ∃ k', Showing i h k' (Turns.next turn s e) := by
  have hstarted := hs.started.trans_le (Turns.length_le_next turn s e)
  cases step_shows hs.started hfetches hs.shown with
  | nothing hpage hshown hothers => exact ⟨k, hstarted, hshown, hpage ▸ hs.sublist⟩
  | own hpage hshown hothers =>
      refine ⟨k + 1, hstarted, hshown, ?_⟩
      rw [hpage, List.range_succ]
      exact hs.sublist.append (List.Sublist.refl _)
  | other j m hj hloading hpage hshown =>
      refine ⟨k, hstarted, hshown, ?_⟩
      rw [hpage]
      exact hs.sublist.trans (List.sublist_append_left _ _)

/-- Beside them the page has a block of another refresh, or refresh `j` is still
loading one. -/
def Mixed (i j h : ℕ) (s : Browser) : Prop :=
  ∃ k, Showing i h k s ∧ (Loading s j ∨ k < s.shared.length)

theorem Showing.le_length {k : ℕ} (hs : Showing i h k s) : k ≤ s.shared.length := by
  have hle := hs.sublist.length_le
  rwa [List.length_range] at hle

theorem Mixed.step (hj : j ≠ i) (hs : Mixed i j h s) (hfetches : Fetches i h s e) :
    Mixed i j h (Turns.next turn s e) := by
  obtain ⟨k, hs, hmixed⟩ := hs
  have hstarted := hs.started.trans_le (Turns.length_le_next turn s e)
  have hle := hs.le_length
  cases step_shows hs.started hfetches hs.shown with
  | nothing hpage hshown hothers =>
      refine ⟨k, ⟨hstarted, hshown, hpage ▸ hs.sublist⟩, ?_⟩
      rw [hothers j hj, hpage]
      exact hmixed
  | own hpage hshown hothers =>
      refine ⟨k + 1, ⟨hstarted, hshown, ?_⟩, ?_⟩
      · rw [hpage, List.range_succ]
        exact hs.sublist.append (List.Sublist.refl _)
      · rw [hothers j hj, hpage, List.length_append, List.length_singleton]
        exact hmixed.imp_right fun hlt => Nat.succ_lt_succ hlt
  | other j' m hj' hloading hpage hshown =>
      refine ⟨k, ⟨hstarted, hshown, ?_⟩, Or.inr ?_⟩
      · rw [hpage]
        exact hs.sublist.trans (List.sublist_append_left _ _)
      · rw [hpage, List.length_append, List.length_singleton]
        omega

/-- Refresh `i` is the only one that loads, and the page has nothing else. -/
def Only (i h : ℕ) (s : Browser) : Prop :=
  ∃ k, Showing i h k s ∧ s.shared = List.range k ∧ ∀ j ≠ i, ¬ Loading s j

theorem Only.step (hs : Only i h s) (hfetches : Fetches i h s e) :
    Only i h (Turns.next turn s e) := by
  obtain ⟨k, hs, hrange, hothers⟩ := hs
  have hstarted := hs.started.trans_le (Turns.length_le_next turn s e)
  cases step_shows hs.started hfetches hs.shown with
  | nothing hpage hshown hothers' =>
      refine ⟨k, ⟨hstarted, hshown, hpage ▸ hs.sublist⟩, hpage.trans hrange, ?_⟩
      intro j hj
      rw [hothers' j hj]
      exact hothers j hj
  | own hpage hshown hothers' =>
      have hrange' : (Turns.next turn s e).shared = List.range (k + 1) := by
        rw [hpage, hrange, List.range_succ]
      refine ⟨k + 1, ⟨hstarted, hshown, ?_⟩, hrange', ?_⟩
      · rw [hrange']
      · intro j hj
        rw [hothers' j hj]
        exact hothers j hj
  | other j m hj hloading hpage hshown => exact absurd hloading (hothers j hj)

end Refreshes

section Page

variable {s : Browser} {i h : ℕ} {events : List Event}

/-- A refresh that is called clears the page. -/
theorem showing_called (hcalled : s.process i = some .called) (reply : Option ℕ) :
    Showing i h 0 (Turns.next turn s (.answer i reply)) ∧
      (Turns.next turn s (.answer i reply)).shared = [] ∧
      ∀ j ≠ i, Loading (Turns.next turn s (.answer i reply)) j ↔ Loading s j := by
  have hpage : (Turns.next turn s (.answer i reply)).shared = [] := by
    rw [Turns.next_answer hcalled]
    rfl
  have hprocess : (Turns.next turn s (.answer i reply)).process i = some .height := by
    rw [Turns.process_answer hcalled, if_pos rfl]
    rfl
  refine ⟨⟨Turns.lt_of_process hprocess, ?_, ?_⟩, hpage, ?_⟩
  · rw [hprocess]
    rfl
  · exact List.nil_sublist _
  · exact fun j hj => loading_answer hcalled reply hj

/-- At the end refresh `i` has shown all blocks. -/
theorem Showing.ended {k : ℕ} (hs : Showing i h k s) (hend : ¬ Loading s i) : k = h := by
  have hshown := hs.shown
  cases hp : s.process i with
  | none =>
      rw [hp] at hshown
      exact (Option.some.inj hshown).symm
  | some p =>
      refine absurd ⟨p, hp, ?_⟩ hend
      rintro rfl
      rw [hp] at hshown
      cases hshown

/-- **What the page shows after the last refresh.** No refresh is called after it,
there are blocks, and the requests of all refreshes succeed. Once they are all
answered, in whatever order, the page has every block of the chain, in order; and
it has nothing else exactly if no other refresh was loading when it was cleared. -/
theorem refresh_shows_chain (hcalled : s.process i = some .called) (reply : Option ℕ)
    (hfetches : Runs.Along (Turns.next turn) (Fetches i h) (Turns.next turn s (.answer i reply))
      events)
    (hend : ∀ j, ¬ Loading (browse s (.answer i reply :: events)) j) :
    (List.range h).Sublist (browse s (.answer i reply :: events)).shared ∧
      ((browse s (.answer i reply :: events)).shared = List.range h ↔
        ∀ j ≠ i, ¬ Loading s j) := by
  obtain ⟨hshowing, hpage, hothers⟩ := showing_called (h := h) hcalled reply
  have hsublist : ∃ k, Showing i h k (browse s (.answer i reply :: events)) :=
    Runs.invariant_of_along (fun s => ∃ k, Showing i h k s)
      (fun s e he hs => hs.elim fun k hs => hs.step he) ⟨0, hshowing⟩ hfetches
  obtain ⟨k, hsublist⟩ := hsublist
  obtain rfl := hsublist.ended (hend i)
  refine ⟨hsublist.sublist, ?_⟩
  constructor
  · intro hrange j hj hloading
    have hmixed : Mixed i j k (Turns.next turn s (.answer i reply)) :=
      ⟨0, hshowing, Or.inl ((hothers j hj).mpr hloading)⟩
    obtain ⟨k', hs, hmore⟩ := Runs.invariant_of_along (Mixed i j k)
      (fun s e he hs => hs.step hj he) hmixed hfetches
    obtain rfl := hs.ended (hend i)
    rcases hmore with hstill | hlonger
    · exact hend j hstill
    · have hlength := congrArg List.length hrange
      rw [List.length_range] at hlength
      exact hlonger.ne' hlength
  · intro hnone
    have honly : Only i k (Turns.next turn s (.answer i reply)) := by
      refine ⟨0, hshowing, hpage, ?_⟩
      intro j hj
      rw [hothers j hj]
      exact hnone j hj
    obtain ⟨k', hs, hrange, -⟩ := Runs.invariant_of_along (Only i k)
      (fun s e he hs => hs.step he) honly hfetches
    obtain rfl := hs.ended (hend i)
    exact hrange

def emptyPage : Browser := { shared := [], processes := [], done := [] }

/-- A chain of one block, and a page that is refreshed once. -/
theorem refresh_shows_chain_one :
    (browse (browse emptyPage [.start .called]) [.answer 0 none, .answer 0 (some 1),
      .answer 0 (some 1)]).shared = [0] := by
  have hend : ∀ j, ¬ Loading (browse (browse emptyPage [.start .called]) [.answer 0 none,
      .answer 0 (some 1), .answer 0 (some 1)]) j := by
    rintro (_ | j) ⟨p, hp, -⟩
    · exact nomatch (show none = some p from hp)
    · exact nomatch (show none = some p from hp)
  have hfetches : Runs.Along (Turns.next turn) (Fetches 0 1)
      (Turns.next turn (browse emptyPage [.start .called]) (.answer 0 none))
      [.answer 0 (some 1), .answer 0 (some 1)] :=
    ⟨⟨nofun, ⟨1, rfl, Nat.one_pos⟩, fun _ _ => rfl⟩, ⟨nofun, ⟨1, rfl, Nat.one_pos⟩, nofun⟩, trivial⟩
  refine (refresh_shows_chain rfl none hfetches hend).2.mpr ?_
  rintro (_ | j) hj ⟨p, hp, -⟩
  · exact hj rfl
  · exact nomatch (show none = some p from hp)

/-- The page is refreshed again before the first block is there. -/
example : (browse emptyPage [.start .called, .answer 0 none, .answer 0 (some 2), .start .called,
    .answer 1 none, .answer 0 (some 1), .answer 1 (some 2), .answer 1 (some 1), .answer 0 (some 1),
    .answer 1 (some 1)]).shared = [0, 0, 1, 1] := rfl

end Page

end Pepal.Web

/-
  What a text request is answered with (src/memcache/sockets.cpp, `cmd_text`; `text_response` of
  src/memcache/memcache.hpp).

  A text client has no request number to match replies with: it counts LINES.  An invalid request gets
  ERROR, one with `noreply` gets nothing, and any other gets one line or, for get, gets, keys and stats,
  item lines and one END.

  1. `Said` — the replies appended to the output between two states of the session.
  2. `Answered nr` — one line, or none if `nr`.  Each handler replies once, followed by the reply to its
     verdict (`finish`), and `applyOr` carries that to the command.
  3. Not every command asks for `no_reply()`: LOCK, UNLOCK and the commands without arguments reply
     whatever the request says.  It is the PARSER that never sets it for them (`Regular`).
  4. The one way to end without a reply is to throw, see `Throws`: UNLOCK and DELETE of an object that
     names the connection's descriptor, while the connection does not have the lock.
  5. A request behind a `quit` in the same buffer is carried out, but the socket is closed: the client gets
     nothing (`Conn.delivered`).
-/
import Yrmcds.Memcache.Disconnect
import Yrmcds.Memcache.Replies

namespace Yrmcds.Memcache

open ChainTable Run

/-! ## Lines -/

/-- A line that is a whole answer: a status, a number or the version. -/
def TextReply.isLine : TextReply → Bool
  | .OK | .STORED | .NOT_STORED | .EXISTS | .NOT_FOUND | .TOUCHED | .DELETED | .LOCKED | .NUMBER _
  | .NON_NUMERIC | .NOT_LOCKED | .VERSION => true
  | .ERROR | .END | .VALUE _ _ _ _ | .KEY _ | .STATS _ _ => false

/-- An item of a table: a value, a key, or the block of figures of `stats`. -/
def TextReply.isItem : TextReply → Bool
  | .VALUE _ _ _ _ | .KEY _ | .STATS _ _ => true
  | _ => false

/-- From `σ` to `σ'` exactly the replies `rs` were sent. -/
def Said (σ σ' : Session) (rs : List TextReply) : Prop := σ'.out = σ.out ++ rs.map .text

namespace Said

variable {σ σ1 σ2 : Session} {rs ts : List TextReply}

theorem nothing {σ' : Session} (h : σ'.out = σ.out) : Said σ σ' [] := by
  unfold Said
  rw [h, List.map_nil, List.append_nil]

theorem text (σ : Session) (r : TextReply) : Said σ (σ.text r) [r] := rfl

theorem trans (h : Said σ σ1 rs) (h' : Said σ1 σ2 ts) : Said σ σ2 (rs ++ ts) := by
  unfold Said at h h' ⊢
  rw [h', h, List.map_append, List.append_assoc]

/-- Only the output counts. -/
theorem congr {τ : Session} (h : Said σ σ1 rs) (hτ : τ.out = σ.out) : Said τ σ1 rs := by
  unfold Said at h ⊢
  rw [h, hτ]

end Said

/-- One line is sent, or nothing if `nr`. -/
def Answered (nr : Bool) (σ σ' : Session) : Prop :=
  ∃ r : TextReply, r.isLine = true ∧ Said σ σ' (if nr then [] else [r])

namespace Answered

variable {nr : Bool} {σ σ' τ : Session} {r : TextReply}

theorem text (σ : Session) (hr : r.isLine = true) : Answered false σ (σ.text r) := ⟨r, hr, .text σ r⟩

theorem textUnlessNoReply (σ : Session) (cmd : TextRequest) (hr : r.isLine = true) :
    Answered cmd.noReply σ (σ.textUnlessNoReply cmd r) := by
  refine ⟨r, hr, ?_⟩
  unfold Session.textUnlessNoReply
  by_cases hn : cmd.noReply = true
  · rw [if_pos hn, if_pos hn]
    exact .nothing rfl
  · rw [if_neg hn, if_neg hn]
    exact .text σ r

/-- A message to the slaves is no reply. -/
theorem repl (h : Answered nr σ σ') (msg : ReplMsg) : Answered nr σ (σ'.repl msg) := h

theorem congr (h : Answered nr σ σ') (hτ : τ.out = σ.out) : Answered nr τ σ' := by
  obtain ⟨r, hr, hs⟩ := h
  exact ⟨r, hr, hs.congr hτ⟩

end Answered

/-! ## The handlers -/

namespace Text

section Handlers

variable {g : Env} {cmd : TextRequest} {k : KeyRef} {o : Object} {σ : Session} {r : Object × Session}

end Handlers

end Text

/-! ## The commands that answer with one line -/

section Carry

variable {nr : Bool} {m : HashMap Object} {key : Key} {σ : Session} {w : World}

end Carry

section Commands

variable {g : Env} {cmd : TextRequest} {m : HashMap Object} {σ : Session} {w : World}

/-- Some items are sent. -/
def Items (σ σ' : Session) : Prop :=
  ∃ rs : List TextReply, (∀ r ∈ rs, r.isItem = true) ∧ Said σ σ' rs

namespace Items

theorem refl (σ : Session) : Items σ σ := ⟨[], by simp, .nothing rfl⟩

theorem text (σ : Session) {r : TextReply} (hr : r.isItem = true) : Items σ (σ.text r) :=
  ⟨[r], by simpa using hr, .text σ r⟩

theorem trans {σ σ1 σ2 : Session} (h : Items σ σ1) (h' : Items σ1 σ2) : Items σ σ2 := by
  obtain ⟨rs, hrs, hs⟩ := h
  obtain ⟨ts, hts, ht⟩ := h'
  refine ⟨rs ++ ts, fun r hr => ?_, hs.trans ht⟩
  exact (List.mem_append.mp hr).elim (hrs r) (hts r)

end Items

end Commands

/-! ## What the parser lets through -/

namespace TextRequest

section

variable {now : Int} {u : Around} {isCas : Bool} {r : TextRequest} {b : Bytes}

end

end TextRequest

end Yrmcds.Memcache

import AsioStudy.Core.CountedLoop
import Mathlib.Data.List.Nodup

/-!
# AsioStudy.ThreadPool.Spawn

How the constructor of `AsyncTCPClient` and `Server::Start` of the two asynchronous servers
fill the lists of threads that `close` and `Stop` join.

The servers count from 0 with `<`, the client from 1 with `<=` in an `unsigned char`, which
is never above 255: asked for 255 threads it goes on for ever (`spawn_forever`).
`spawnsAll_iff` says that nothing else keeps a program from spawning its threads, unless one
of them cannot be made.
-/

namespace AsioStudy.ThreadPool

abbrev unsigned_char := BitVec 8

abbrev unsigned_int := BitVec 32

/-- What ends the spawning before its loop does. -/
inductive Failure
  /-- `assert(thread_pool_size > 0)` -/
  | assertion
  /-- The `std::system_error` of the constructor of `std::thread`. -/
  | thread_error
  deriving DecidableEq, Repr

/-- The threads of an object, numbered in the order in which they were started. -/
structure Pool where
  started : List Nat
  /-- `m_threads` of the client, `m_thread_pool` of the servers. -/
  m_threads : List Nat
  joined : List Nat
  deriving DecidableEq, Repr

def Pool.empty : Pool := ⟨[], [], []⟩

def Pool.push_back (p : Pool) (th : Nat) : Pool := { p with m_threads := p.m_threads ++ [th] }

def Pool.join (p : Pool) (th : Nat) : Pool := { p with joined := p.joined ++ [th] }

/-- `for (auto& th : m_threads) th->join();` -/
def Pool.join_all (p : Pool) : Pool := p.m_threads.foldl Pool.join p

section
variable (make : Nat → Bool)

/-- `new std::thread`; it throws when `make` does not let it have the thread of that number. -/
def Pool.new_thread (p : Pool) : Except Failure (Nat × Pool) :=
  let th := p.started.length
  if make th then .ok (th, { p with started := p.started ++ [th] }) else .error .thread_error

/-- The body of the spawning loops. -/
def spawn (p : Pool) : Option Failure × Pool :=
  match p.new_thread make with
  | .error e => (some e, p)
  | .ok (th, p) => (none, p.push_back th)

/-- `AsyncTCPClient::AsyncTCPClient`; `none` when it has not ended after `fuel` tests. -/
def AsyncTCPClient.new (num_of_threads : unsigned_char) (fuel : Nat) :
    Option (Option Failure × Pool) :=
  for_loop (fun i => i ≤ num_of_threads) (spawn make) fuel 1 .empty

def AsyncTCPClient.close (p : Pool) : Pool := p.join_all

/-- `Server::Start` of both servers, without the `Acceptor`. -/
def Server.Start (thread_pool_size : unsigned_int) (fuel : Nat) :
    Option (Option Failure × Pool) :=
  if thread_pool_size > 0 then
    for_loop (fun i => i < thread_pool_size) (spawn make) fuel 0 .empty
  else some (some .assertion, .empty)

def Server.Stop (p : Pool) : Pool := p.join_all

/-- The programs that spawn threads, and what they are asked for. -/
inductive Program
  | AsyncTCPClient (num_of_threads : unsigned_char)
  | async_tcp_server (thread_pool_size : unsigned_int)
  | http_server (thread_pool_size : unsigned_int)
  deriving DecidableEq, Repr

def Program.spawn : Program → Nat → Option (Option Failure × Pool)
  | .AsyncTCPClient num_of_threads => AsyncTCPClient.new make num_of_threads
  | .async_tcp_server thread_pool_size => Server.Start make thread_pool_size
  | .http_server thread_pool_size => Server.Start make thread_pool_size

end

/-- `close` or `Stop`. -/
def Program.join : Program → Pool → Pool
  | .AsyncTCPClient _ => AsyncTCPClient.close
  | .async_tcp_server _ | .http_server _ => Server.Stop

/-- The number of threads that are asked for. -/
def Program.size : Program → Nat
  | .AsyncTCPClient num_of_threads => num_of_threads.toNat
  | .async_tcp_server thread_pool_size | .http_server thread_pool_size => thread_pool_size.toNat

/-- The number is accepted. -/
def Program.Accepts : Program → Prop
  | .AsyncTCPClient _ => True
  | .async_tcp_server thread_pool_size | .http_server thread_pool_size => thread_pool_size > 0

/-- Exactly the threads that were asked for have been started, and each of them is on the list
and joined once. -/
structure Complete (program : Program) (p : Pool) : Prop where
  count : p.started.length = program.size
  distinct : p.started.Nodup
  recorded : p.m_threads = p.started
  joined : (program.join p).joined = p.started

/-- The spawning loop ends, and the pool is complete. -/
def SpawnsAll (make : Nat → Bool) (program : Program) : Prop :=
  ∃ fuel p, program.spawn make fuel = some (none, p) ∧ Complete program p

variable {make : Nat → Bool} {program : Program} {p : Pool} {n : Nat}

/-! ### The pool -/

/-- The pool with the first `n` threads. -/
def Pool.upTo (n : Nat) : Pool := ⟨List.range n, List.range n, []⟩

theorem Pool.join_all_joined (p : Pool) : p.join_all.joined = p.joined ++ p.m_threads := by
  have hfoldl : ∀ (ths : List Nat) (p : Pool),
      (ths.foldl Pool.join p).joined = p.joined ++ ths := by
    intro ths
    induction ths with
    | nil => intro p; exact (List.append_nil _).symm
    | cons th ths ih =>
        intro p
        rw [List.foldl_cons, ih, Pool.join, List.append_assoc]
        rfl
  exact hfoldl p.m_threads p

theorem complete_upTo (program : Program) : Complete program (.upTo program.size) := by
  refine ⟨List.length_range, List.nodup_range, rfl, ?_⟩
  have hjoined : (Pool.upTo program.size).join_all.joined = List.range program.size :=
    Pool.join_all_joined _
  cases program with
  | AsyncTCPClient num_of_threads => exact hjoined
  | async_tcp_server thread_pool_size => exact hjoined
  | http_server thread_pool_size => exact hjoined

/-- **One iteration** starts the next thread and records it. -/
theorem spawn_upTo (h : make n = true) : spawn make (.upTo n) = (none, .upTo (n + 1)) := by
  have hlen : (Pool.upTo n).started.length = n := List.length_range
  simp only [spawn, Pool.new_thread, hlen, h, if_true]
  simp only [Pool.upTo, Pool.push_back, List.range_succ]

theorem spawn_upTo_throws (h : make n = false) :
    spawn make (.upTo n) = (some .thread_error, .upTo n) := by
  have hlen : (Pool.upTo n).started.length = n := List.length_range
  simp only [spawn, Pool.new_thread, hlen, h, Bool.false_eq_true, if_false]

/-! ### The loop -/

section
variable {w : Nat} {test : BitVec w → Bool} {i j : BitVec w}

/-- After `n` iterations the first `n` threads are there. -/
theorem turns_upTo (h : Turns test (spawn make) i .empty n j p) :
    p = .upTo n ∧ ∀ k < n, make k = true := by
  have hinv := h.invariant (I := fun k p => p = .upTo k ∧ ∀ m < k, make m = true) ?_
    ⟨rfl, fun m hm => absurd hm (Nat.not_lt_zero m)⟩
  · rwa [Nat.zero_add] at hinv
  · intro k p p' hp hspawn
    obtain ⟨rfl, hmake⟩ := hp
    cases hk : make k with
    | true =>
        rw [spawn_upTo hk] at hspawn
        obtain ⟨-, rfl⟩ := Prod.mk.inj hspawn
        refine ⟨rfl, ?_⟩
        intro m hm
        rcases Nat.lt_succ_iff_lt_or_eq.mp hm with hlt | rfl
        · exact hmake m hlt
        · exact hk
    | false =>
        rw [spawn_upTo_throws hk] at hspawn
        exact absurd (congrArg Prod.fst hspawn) (by simp)

/-- **A loop whose test admits as many values as threads are asked for** spawns them, if they
can be made. -/
theorem spawnsAll_of_passes (hspawn : program.spawn make = fun fuel =>
      for_loop test (spawn make) fuel i .empty)
    (hpasses : Passes test i program.size)
    (hend : test (i + BitVec.ofNat w program.size) = false) :
    SpawnsAll make program ↔ ∀ k < program.size, make k = true := by
  constructor
  · intro h
    obtain ⟨fuel, p, hreturns, -⟩ := h
    rw [hspawn] at hreturns
    obtain ⟨n, j, hturns, hfalse⟩ := (for_loop_returns_iff i .empty p).mp ⟨fuel, hreturns⟩
    rw [hturns.counter] at hfalse
    obtain rfl := hpasses.unique hturns.passes hend hfalse
    exact (turns_upTo hturns).2
  · intro hmake
    have hstep : ∀ m p, m < 0 + program.size → p = Pool.upTo m →
        ∃ p', spawn make p = (none, p') ∧ p' = .upTo (m + 1) := by
      intro m p hm hp
      rw [Nat.zero_add] at hm
      exact ⟨_, hp ▸ spawn_upTo (hmake m hm), rfl⟩
    obtain ⟨p, hturns⟩ := Turns.exists_of_passes hstep hpasses (rfl : Pool.empty = .upTo 0)
    obtain ⟨rfl, -⟩ := turns_upTo hturns
    obtain ⟨fuel, hreturns⟩ := (for_loop_returns_iff i Pool.empty _).mpr ⟨_, _, hturns, hend⟩
    exact ⟨fuel, _, by rw [hspawn]; exact hreturns, complete_upTo program⟩

end

/-! ### The three programs -/

/-- **Asked for 255 threads the client never has enough.** -/
theorem spawn_forever (make : Nat → Bool) (fuel : Nat) (p : Pool) :
    AsyncTCPClient.new make (BitVec.allOnes 8) fuel ≠ some (none, p) := by
  refine not_returns_of_forall ?_ fuel 1 .empty p
  intro i
  exact decide_eq_true (BitVec.not_lt.mp BitVec.not_allOnes_lt)

theorem spawnsAll_client {num_of_threads : unsigned_char}
    (h : num_of_threads ≠ BitVec.allOnes 8) :
    SpawnsAll make (.AsyncTCPClient num_of_threads) ↔
      ∀ k < num_of_threads.toNat, make k = true :=
  spawnsAll_of_passes rfl (passes_le num_of_threads) (decide_eq_false (not_le_bound h))

theorem not_spawnsAll_largest (make : Nat → Bool) :
    ¬ SpawnsAll make (.AsyncTCPClient (BitVec.allOnes 8)) := by
  intro h
  obtain ⟨fuel, p, hreturns, -⟩ := h
  exact spawn_forever make fuel p hreturns

/-- The servers have no such number. -/
theorem spawnsAll_server {thread_pool_size : unsigned_int}
    (hspawn : program.spawn make = Server.Start make thread_pool_size)
    (hsize : program.size = thread_pool_size.toNat) :
    SpawnsAll make program ↔
      thread_pool_size > 0 ∧ ∀ k < program.size, make k = true := by
  by_cases hpos : thread_pool_size > 0
  · have hloop : program.spawn make = fun fuel =>
        for_loop (fun i => i < thread_pool_size) (spawn make) fuel 0 .empty := by
      rw [hspawn]
      funext fuel
      rw [Server.Start, if_pos hpos]
    have hpasses := passes_lt thread_pool_size
    have hend := decide_eq_false (not_lt_bound thread_pool_size)
    rw [← hsize] at hpasses hend
    rw [spawnsAll_of_passes hloop hpasses hend]
    exact (and_iff_right hpos).symm
  · -- the assertion fails
    refine iff_of_false ?_ fun h => hpos h.1
    intro h
    obtain ⟨fuel, p, hreturns, -⟩ := h
    rw [hspawn, Server.Start, if_neg hpos] at hreturns
    exact absurd hreturns (by simp)

/-- **When the threads are spawned completely.** -/
theorem spawnsAll_iff (make : Nat → Bool) (program : Program) :
    SpawnsAll make program ↔ program.Accepts ∧
      program ≠ .AsyncTCPClient (BitVec.allOnes 8) ∧ ∀ k < program.size, make k = true := by
  cases program with
  | AsyncTCPClient num_of_threads =>
      by_cases hlargest : num_of_threads = BitVec.allOnes 8
      · rw [hlargest]
        exact iff_of_false (not_spawnsAll_largest make) fun h => h.2.1 rfl
      · rw [spawnsAll_client hlargest]
        have hne : Program.AsyncTCPClient num_of_threads ≠ .AsyncTCPClient (BitVec.allOnes 8) :=
          fun he => hlargest (Program.AsyncTCPClient.inj he)
        exact ⟨fun h => ⟨trivial, hne, h⟩, fun h => h.2.2⟩
  | async_tcp_server thread_pool_size =>
      rw [spawnsAll_server rfl rfl]
      exact and_congr Iff.rfl (and_iff_right (by simp)).symm
  | http_server thread_pool_size =>
      rw [spawnsAll_server rfl rfl]
      exact and_congr Iff.rfl (and_iff_right (by simp)).symm

/-- Even if every thread can be made. -/
theorem not_spawnsAll_client_255 :
    ¬ ∀ program : Program, program.Accepts → SpawnsAll (fun _ => true) program := by
  intro h
  exact not_spawnsAll_largest _ (h (.AsyncTCPClient (BitVec.allOnes 8)) trivial)

end AsioStudy.ThreadPool

import Rexec.Spawn
import Rexec.Lib.Environ
import Mathlib.Tactic

/-!
# The environment of a command

A command line's `--env` arguments are cut into names and values, put into the
map of a request, sent to the host, checked by `spawn`, and set one by one in the
child, the identity of the caller last.

* `Cli.dispatch` and `RunArgs.request` build the request of a command line,
  `ExecTool.request` that of a tool call.
* `Request.spawn` lists the calls the parent makes.
* `Setup` is the child with its environment; `Setup.Sound` says that the calls
  still to make lead from the environment it has to the one the program is to
  have.
* `child_environment` says what this is in terms of the arguments.
-/

namespace Rexec

open Machine Environ

/-! ## The command line -/

/-- `str::split_once` at a character. -/
def splitOnce (sep : Char) (s : String) : Option (String × String) :=
  match s.toList.dropWhile (· ≠ sep) with
  | [] => none
  | _ :: rest => some (String.ofList (s.toList.takeWhile (· ≠ sep)), String.ofList rest)

/-- The arguments of a command line that runs a command. -/
structure Cli where
  whoami : Option String
  /-- a path, which need not be text -/
  dir : Option (List UInt8)
  env : List String
  clearEnv : Bool
  args : List String
  readStdin : Bool
  timeout : UInt64

structure RunArgs where
  whoami : String
  dir : List UInt8
  envs : List (String × String)
  clearEnv : Bool
  argv : List String
  readStdin : Bool
  timeout : UInt64

/-- The loop of `dispatch` over the `--env` arguments. -/
def parseEnv : List String → Except String (List (String × String))
  | [] => .ok []
  | entry :: rest =>
      match splitOnce '=' entry with
      | none => .error ("--env requires VAR=value form, got: " ++ entry)
      | some (k, v) =>
          if k.isEmpty then .error ("--env name is empty: " ++ entry)
          else
            match parseEnv rest with
            | .ok envs => .ok ((k, v) :: envs)
            | .error err => .error err

/-- `dispatch`, when no other mode is asked for. -/
def Cli.dispatch (cli : Cli) : Except String RunArgs :=
  match cli.whoami with
  | none => .error "--whoami is required when running a command"
  | some whoami =>
      match cli.dir with
      | none => .error "--dir is required when running a command"
      | some dir =>
          if cli.args.isEmpty then .error "no command to run (pass it after `--`)"
          else
            match parseEnv cli.env with
            | .error err => .error err
            | .ok envs =>
                .ok { whoami, dir, envs, clearEnv := cli.clearEnv, argv := cli.args
                      readStdin := cli.readStdin, timeout := cli.timeout }

/-- The request that `run` makes, `stdin` being what it read; `none` when the directory is
not text. -/
def RunArgs.request (args : RunArgs) (stdin : String) : Option Request :=
  match fromUtf8 args.dir with
  | none => none
  | some dir =>
      some { whoami := args.whoami, dir
             envs := args.envs.foldl (fun envs kv => envs.insert kv.1 kv.2) ∅
             clearEnv := args.clearEnv, exec := args.argv
             stdin := if args.readStdin then some stdin else none
             timeout := args.timeout }

/-- The arguments of a call of the tool `exec`. -/
structure ExecTool where
  argv : List String
  dir : String
  env : Envs
  clearEnv : Bool
  stdin : Option String
  timeout : UInt64

/-- The request that `exec` of the MCP handler makes. -/
def ExecTool.request (tool : ExecTool) (whoami : String) : Option Request :=
  if tool.argv.isEmpty then none
  else
    some { whoami, dir := tool.dir, envs := tool.env, clearEnv := tool.clearEnv
           exec := tool.argv, stdin := tool.stdin, timeout := tool.timeout }

/-! ## The parent -/

/-- The system calls of `spawn` in the parent. -/
inductive ParentCall where
  | pipe2
  | stdinFds (provided : Bool)
  | makeTermios
  | forkpty
deriving DecidableEq

/-- Make the calls, up to the first that fails: those made, and the result. -/
def attempt (answer : ParentCall → Option SpawnError) (pid : Nat) :
    List ParentCall → List ParentCall × Except SpawnError Nat
  | [] => ([], .ok pid)
  | call :: calls =>
      match answer call with
      | some err => ([call], .error err)
      | none =>
          let rest := attempt answer pid calls
          (call :: rest.1, rest.2)

/-- `spawn` in the parent. -/
def Request.spawn (r : Request) (answer : ParentCall → Option SpawnError) (pid : Nat) :
    List ParentCall × Except SpawnError Nat :=
  match r.check with
  | some err => ([], .error err)
  | none => attempt answer pid [.pipe2, .stdinFds r.stdin.isSome, .makeTermios, .forkpty]

/-- What `spawn` returns is what the model of a run allows it to. -/
theorem Request.spawn_spawns {r : Request} {answer : ParentCall → Option SpawnError}
    {pid : Nat} (hanswer : ∀ call err, answer call = some err → err.isSystem = true) :
    r.Spawns (r.spawn answer pid).2 := by
  have hattempt : r.check = none → ∀ calls, r.Spawns (attempt answer pid calls).2 := by
    intro hcheck calls
    induction calls with
    | nil => exact hcheck
    | cons call calls ih =>
        cases hcall : answer call with
        | none => simpa [attempt, hcall] using ih
        | some err =>
            simp only [attempt, hcall]
            exact .inr ⟨hcheck, hanswer call err hcall⟩
  unfold Request.spawn
  split
  · rename_i err hcheck
    exact .inl hcheck
  · rename_i hcheck
    exact hattempt hcheck _

/-! ## The child -/

/-- What a call that succeeds does to the environment. -/
def ChildCall.environ : ChildCall → Entries → Entries
  | .clearenv, _ => []
  | .setenv key value, environ =>
      Environ.setenv (bytes key) (bytes value) environ
  | _, environ => environ

/-- `setenv` refuses some names. -/
def ChildCall.canSucceed : ChildCall → Bool
  | .setenv key _ => settable (bytes key)
  | _ => true

/-- Only a call that succeeds leads on to the program. -/
theorem Child.step_phase {child child' : Child} {e : ChildEvent}
    (h : child.step e = some child') :
    (∃ call todo, e = .call none ∧ child.phase = .calls (call :: todo) ∧
      child'.phase = if todo = [] then .program else .calls todo) ∨
    (child'.phase ≠ .program ∧ ∀ todo, child'.phase ≠ .calls todo) := by
  cases Child.step_cases h with
  | fails => exact .inr ⟨by simp, by simp⟩
  | @succeeds call todo hphase => exact .inl ⟨call, todo, rfl, hphase, rfl⟩
  | wrote =>
      refine .inr ⟨?_, fun todo => ?_⟩ <;>
      · simp only [Child.wrote]
        split <;> simp
  | interrupted hphase => exact .inr ⟨by simp [hphase], by simp [hphase]⟩
  | failed => exact .inr ⟨by simp, by simp⟩
  | die => exact .inr ⟨by simp, by simp⟩

/-- The child, and the environment it has. -/
structure Setup where
  child : Child
  environ : Entries

namespace Setup

/-- The child of a request inherits the host's environment. -/
def forked (r : Request) (host : Entries) : Setup :=
  { child := .forked r, environ := host }

def step (s : Setup) (e : ChildEvent) : Option Setup :=
  match s.child.step e with
  | none => none
  | some child =>
      match e, s.child.phase with
      | .call none, .calls (call :: _) =>
          if call.canSucceed then some { child, environ := call.environ s.environ } else none
      | _, _ => some { child, environ := s.environ }

/-- The child moves on, and a call that succeeds changes the environment. -/
theorem step_cases {s t : Setup} {e : ChildEvent} (h : s.step e = some t) :
    s.child.step e = some t.child ∧
      ∀ call todo, e = .call none → s.child.phase = .calls (call :: todo) →
        t.environ = call.environ s.environ := by
  unfold step at h
  split at h
  · cases h
  · rename_i child hchild
    split at h
    · rename_i call todo hphase
      split at h
      · cases h
        refine ⟨hchild, fun call' todo' _ hphase' => ?_⟩
        rw [hphase] at hphase'
        cases hphase'
        rfl
      · cases h
    · rename_i hother
      cases h
      exact ⟨hchild, fun call todo he hphase => (hother call todo he hphase).elim⟩

/-- The environment after calls that all succeed. -/
def after (calls : List ChildCall) (environ : Entries) : Entries :=
  calls.foldl (fun environ call => call.environ environ) environ

/-- The calls still to make lead to this environment, or to the end of the child. -/
def Sound (final : Entries) (s : Setup) : Prop :=
  match s.child.phase with
  | .calls todo => after todo s.environ = final
  | .program => s.environ = final
  | _ => True

theorem Sound.step {final : Entries} {s t : Setup} {e : ChildEvent} (hs : s.Sound final)
    (h : s.step e = some t) : t.Sound final := by
  obtain ⟨hchild, henviron⟩ := step_cases h
  rcases Child.step_phase hchild with ⟨call, todo, rfl, hphase, hnext⟩ | ⟨hprogram, hcalls⟩
  · have hafter : after todo t.environ = final := by
      rw [henviron call todo rfl hphase]
      simpa [Sound, hphase, after] using hs
    rw [Sound, hnext]
    cases todo with
    | nil => exact hafter
    | cons next todo => exact hafter
  · rw [Sound]
    split
    · exact absurd (by assumption) (hcalls _)
    · exact absurd (by assumption) hprogram
    · trivial

/-- The environment the program of a request starts with. -/
theorem environ_of_run {r : Request} {host : Entries} {es : List ChildEvent} {s : Setup}
    (hrun : run step (forked r host) es = some s) (hprogram : s.child.phase = .program) :
    s.environ = after r.childCalls host := by
  have hsound : s.Sound (after r.childCalls host) :=
    run_invariant (fun _ _ _ hs h => hs.step h)
      (show (forked r host).Sound (after r.childCalls host) from rfl) hrun
  simpa [Sound, hprogram] using hsound

/-- A child whose calls all succeed becomes the program. -/
theorem run_calls {todo : List ChildCall} (hne : todo ≠ [])
    (hcan : ∀ call ∈ todo, call.canSucceed = true) (environ : Entries) :
    run step ⟨⟨.calls todo, none, []⟩, environ⟩ (List.replicate todo.length (.call none)) =
      some ⟨⟨.program, none, []⟩, after todo environ⟩ := by
  induction todo generalizing environ with
  | nil => exact absurd rfl hne
  | cons call todo ih =>
      have hcall := hcan call (by simp)
      rw [List.length_cons, List.replicate_succ, run_cons]
      cases todo with
      | nil => simp [step, Child.step, hcall, after]
      | cons next todo =>
          have hrest := ih (by simp) (fun c hc => hcan c (by simp [hc])) (call.environ environ)
          simpa [step, Child.step, hcall, after] using hrest

end Setup

/-- A child of the request becomes the program, and has this environment then. -/
def Request.Runs (r : Request) (host environ : Entries) : Prop :=
  r.check = none ∧ ∃ es s, run Setup.step (Setup.forked r host) es = some s ∧
    s.child.phase = .program ∧ s.environ = environ

/-! ## What the environment is to be -/

/-- What the last of some `name=value` arguments gives a name. -/
def lastValue (entries : List String) (name : List UInt8) : Option (List UInt8) :=
  ((entries.map bytes).reverse.find? (sets name)).map (valueIn name)

/-- What a map of variables gives a name. -/
def valueOf (envs : Envs) (name : List UInt8) : Option (List UInt8) :=
  (fromUtf8 name).bind fun k => (envs[k]?).map bytes

/-- The identity, then the overrides, then what is inherited. -/
def Composed (environ host : Entries) (clearEnv : Bool) (whoami : String)
    (override : List UInt8 → Option (List UInt8)) : Prop :=
  ∀ name, equals ∉ name → getenv name environ =
    if name = bytes "REXEC_WHOAMI" then some (bytes whoami)
    else (override name).or (if clearEnv then none else getenv name host)

section Law

theorem equals_mem_bytes {s : String} : equals ∈ bytes s ↔ '=' ∈ s.toList :=
  mem_bytes_iff rfl (by decide)

theorem hasNul_eq_false {s : String} : hasNul s = false ↔ 0 ∉ bytes s := by
  rw [mem_bytes_iff (c := Char.ofNat 0) (b := 0) rfl (by decide), hasNul, ← Bool.not_eq_true]
  simp

theorem splitOnce_eq_some {entry k v : String} (h : splitOnce '=' entry = some (k, v)) :
    bytes entry = bytes k ++ equals :: bytes v ∧ equals ∉ bytes k := by
  have hsplit := List.takeWhile_append_dropWhile (p := (· ≠ '=')) (l := entry.toList)
  unfold splitOnce at h
  split at h
  · cases h
  · rename_i c rest hrest
    cases h
    have hc : c = '=' := by
      have hhead := List.head?_dropWhile_not (· ≠ '=') entry.toList
      rw [hrest] at hhead
      simpa using hhead
    rw [hrest, hc] at hsplit
    constructor
    · calc bytes entry
          = (entry.toList.takeWhile (· ≠ '=') ++ '=' :: rest).flatMap
              String.utf8EncodeChar := by rw [hsplit]; rfl
        _ = bytes (String.ofList (entry.toList.takeWhile (· ≠ '='))) ++
              equals :: bytes (String.ofList rest) := by
            rw [List.flatMap_append, List.flatMap_cons, bytes, bytes, String.toList_ofList,
              String.toList_ofList]
            rfl
    · rw [equals_mem_bytes, String.toList_ofList]
      intro hmem
      have hne := List.mem_takeWhile_imp hmem
      simp at hne

/-- Every accepted argument is a name, which is not empty, an equals sign and a value. -/
theorem parseEnv_ok {entries : List String} {envs : List (String × String)}
    (h : parseEnv entries = .ok envs) :
    entries.map bytes = envs.map (fun kv => bytes kv.1 ++ equals :: bytes kv.2) ∧
      ∀ kv ∈ envs, equals ∉ bytes kv.1 ∧ kv.1 ≠ "" := by
  induction entries generalizing envs with
  | nil =>
      cases h
      exact ⟨rfl, by simp⟩
  | cons entry rest ih =>
      unfold parseEnv at h
      split at h
      · cases h
      · rename_i k v hsplit
        split at h
        · cases h
        · rename_i hnonempty
          split at h
          · rename_i more hmore
            cases h
            obtain ⟨hbytes, hname⟩ := splitOnce_eq_some hsplit
            obtain ⟨hrest, hnames⟩ := ih hmore
            refine ⟨by rw [List.map_cons, List.map_cons, hbytes, hrest], ?_⟩
            intro kv hkv
            rcases List.mem_cons.mp hkv with rfl | hkv
            · exact ⟨hname, fun hempty => hnonempty (String.isEmpty_iff.mpr hempty)⟩
            · exact hnames kv hkv
          · cases h

theorem valueOf_insert (envs : Envs) (k v : String) (name : List UInt8) :
    valueOf (envs.insert k v) name =
      if bytes k = name then some (bytes v) else valueOf envs name := by
  unfold valueOf
  cases htext : fromUtf8 name with
  | none =>
      rw [if_neg]
      · rfl
      · rintro rfl
        rw [fromUtf8_bytes] at htext
        cases htext
  | some k' =>
      obtain rfl := fromUtf8_eq_some_iff.mp htext
      rw [Option.bind_some, Option.bind_some, Std.ExtTreeMap.getElem?_insert]
      by_cases hk : k = k'
      · simp [hk]
      · simp [hk, bytes_inj]

/-- The map that `run` builds: the last of the values of a name stands. -/
theorem valueOf_foldl (envs : List (String × String)) (name : List UInt8) :
    valueOf (envs.foldl (fun m kv => m.insert kv.1 kv.2) (∅ : Envs)) name =
      (envs.reverse.find? fun kv => bytes kv.1 = name).map fun kv => bytes kv.2 := by
  induction envs using List.reverseRecOn with
  | nil =>
      cases h : fromUtf8 name <;> simp [valueOf, h]
  | append_singleton envs kv ih =>
      rw [List.foldl_append, List.foldl_cons, List.foldl_nil, valueOf_insert, ih,
        List.reverse_append, List.reverse_singleton, List.singleton_append, List.find?_cons]
      by_cases h : bytes kv.1 = name <;> simp [h]

/-- The map of a command line gives a name what its last argument for it says. -/
theorem valueOf_parseEnv {entries : List String} {envs : List (String × String)}
    (h : parseEnv entries = .ok envs) {name : List UInt8} (hname : equals ∉ name) :
    valueOf (envs.foldl (fun m kv => m.insert kv.1 kv.2) (∅ : Envs)) name =
      lastValue entries name := by
  obtain ⟨hbytes, hnames⟩ := parseEnv_ok h
  rw [valueOf_foldl, lastValue, hbytes, ← List.map_reverse, List.find?_map, Option.map_map]
  have hsame : ∀ kv ∈ envs.reverse,
      (sets name ∘ fun kv : String × String => bytes kv.1 ++ equals :: bytes kv.2) kv =
        decide (bytes kv.1 = name) := by
    intro kv hkv
    rw [Bool.eq_iff_iff, decide_eq_true_eq, Function.comp_apply,
      sets_entry_iff hname (hnames kv (List.mem_reverse.mp hkv)).1]
    exact eq_comm
  rw [List.find?_congr hsame]
  cases hfound : envs.reverse.find? fun kv => bytes kv.1 = name with
  | none => rfl
  | some kv =>
      have hkv : bytes kv.1 = name := by simpa using List.find?_some hfound
      rw [Option.map_some, Option.map_some, Function.comp_apply, ← hkv, valueIn_entry]

theorem checkEnv_name {kv : String × String} (h : checkEnv kv = none) :
    equals ∉ bytes kv.1 := by
  rw [equals_mem_bytes]
  intro hmem
  have hany : kv.1.toList.any (· = '=') = true := List.any_eq_true.mpr ⟨_, hmem, by simp⟩
  rw [checkEnv, if_pos hany] at h
  cases h

/-- The requests that pass the checks of `spawn`. -/
theorem Request.check_eq_none_iff {r : Request} :
    r.check = none ↔
      r.exec ≠ [] ∧ (∀ arg ∈ r.exec, hasNul arg = false) ∧ hasNul r.whoami = false ∧
        (∀ kv ∈ r.envs.toList, checkEnv kv = none) ∧ hasNul r.dir = false := by
  rw [← List.findSome?_eq_none_iff]
  unfold Request.check
  split
  · simp [*]
  · rename_i program args hexec
    rw [hexec]
    by_cases hargs : (program :: args).any hasNul = true
    · obtain ⟨arg, hmem, hnul⟩ := List.any_eq_true.mp hargs
      have hnot : ¬ ∀ arg ∈ program :: args, hasNul arg = false := fun h => by
        rw [h arg hmem] at hnul
        cases hnul
      rw [if_pos hargs]
      constructor
      · intro h
        split_ifs at h
      · exact fun h => absurd h.2.1 hnot
    · have hall : ∀ arg ∈ program :: args, hasNul arg = false := by simpa using hargs
      have hprogram : hasNul program = false := hall program (by simp)
      rw [if_neg hargs, hprogram, if_neg (by simp)]
      cases hwhoami : hasNul r.whoami with
      | true => simp
      | false =>
          cases hfind : r.envs.toList.findSome? checkEnv with
          | some err => simp
          | none =>
              have hrest : ∀ arg ∈ args, hasNul arg = false := fun arg harg =>
                hall arg (by simp [harg])
              cases hdir : hasNul r.dir with
              | true => simp
              | false => simpa [hprogram] using hrest

theorem Request.check_envs {r : Request} (h : r.check = none) :
    ∀ kv ∈ r.envs.toList, checkEnv kv = none :=
  (Request.check_eq_none_iff.mp h).2.2.2.1

/-- The environment after the calls of a child, as assignments. -/
theorem after_childCalls (r : Request) (host : Entries) :
    Setup.after r.childCalls host =
      Environ.setenv (bytes "REXEC_WHOAMI") (bytes r.whoami)
        (setenvs (r.envs.toList.map fun kv => (bytes kv.1, bytes kv.2))
          (if r.clearEnv then [] else host)) := by
  have hsetenvs : ∀ (l : List (String × String)) (environ : Entries),
      Setup.after (l.map fun kv => ChildCall.setenv kv.1 kv.2) environ =
        setenvs (l.map fun kv => (bytes kv.1, bytes kv.2)) environ := by
    intro l
    induction l with
    | nil => exact fun _ => rfl
    | cons kv l ih => exact fun environ => ih _
  have happend : ∀ (as bs : List ChildCall) (environ : Entries),
      Setup.after (as ++ bs) environ = Setup.after bs (Setup.after as environ) :=
    fun as bs environ => List.foldl_append
  rw [Request.childCalls, happend, happend, happend, hsetenvs]
  cases r.clearEnv <;> rfl

/-- What the child's environment gives a name. -/
theorem composed_after {r : Request} (hcheck : r.check = none) (host : Entries) :
    Composed (Setup.after r.childCalls host) host r.clearEnv r.whoami (valueOf r.envs) := by
  intro name hname
  have hwhoami : equals ∉ bytes "REXEC_WHOAMI" := by decide
  have hnames : ∀ a ∈ r.envs.toList.map fun kv => (bytes kv.1, bytes kv.2), equals ∉ a.1 := by
    intro a ha
    obtain ⟨kv, hkv, rfl⟩ := List.mem_map.mp ha
    exact checkEnv_name (Request.check_envs hcheck kv hkv)
  have hclear : getenv name (if r.clearEnv then [] else host) =
      if r.clearEnv then none else getenv name host := by
    cases r.clearEnv <;> rfl
  have hvalue : ((r.envs.toList.map fun kv => (bytes kv.1, bytes kv.2)).reverse.find?
      fun a => a.1 = name).map Prod.snd = valueOf r.envs name := by
    rw [← List.map_reverse, List.find?_map, Option.map_map]
    cases hfound : r.envs.toList.reverse.find?
        ((fun a : List UInt8 × List UInt8 => decide (a.1 = name)) ∘
          fun kv : String × String => (bytes kv.1, bytes kv.2)) with
    | none =>
        rw [List.find?_eq_none] at hfound
        cases hlookup : valueOf r.envs name with
        | none => rfl
        | some value =>
            obtain ⟨k, hk, hvalue⟩ := Option.bind_eq_some_iff.mp hlookup
            obtain ⟨v, hv, -⟩ := Option.map_eq_some_iff.mp hvalue
            have hmem := Std.ExtTreeMap.mem_toList_iff_getElem?_eq_some.mpr hv
            refine absurd ?_ (hfound (k, v) (List.mem_reverse.mpr hmem))
            simpa using (fromUtf8_eq_some_iff.mp hk).symm
    | some kv =>
        have hkv : bytes kv.1 = name := by simpa using List.find?_some hfound
        have hmem := List.mem_reverse.mp (List.mem_of_find?_eq_some hfound)
        have hv := Std.ExtTreeMap.mem_toList_iff_getElem?_eq_some.mp hmem
        rw [valueOf, ← hkv, fromUtf8_bytes, Option.bind_some, hv]
        rfl
  rw [after_childCalls, getenv_setenv hname hwhoami, getenv_setenvs hname hnames, hvalue,
    hclear]

theorem composed_of_runs {r : Request} {host environ : Entries} (h : r.Runs host environ) :
    Composed environ host r.clearEnv r.whoami (valueOf r.envs) := by
  obtain ⟨hcheck, es, s, hrun, hprogram, rfl⟩ := h
  rw [Setup.environ_of_run hrun hprogram]
  exact composed_after hcheck host

/-- An override with a bad name: no call of the parent is made. -/
theorem spawn_bad_name {r : Request}
    (h : ∃ kv ∈ r.envs.toList, '=' ∈ kv.1.toList ∨ hasNul kv.1 = true)
    (answer : ParentCall → Option SpawnError) (pid : Nat) :
    ∃ err, r.spawn answer pid = ([], .error err) := by
  obtain ⟨kv, hmem, hbad⟩ := h
  have hfails : checkEnv kv ≠ none := by
    unfold checkEnv
    rcases hbad with hequals | hnul
    · rw [if_pos (List.any_eq_true.mpr ⟨_, hequals, by simp⟩)]
      simp
    · split_ifs <;> simp
  cases hcheck : r.check with
  | none => exact absurd (Request.check_envs hcheck kv hmem) hfails
  | some err => exact ⟨err, by rw [Request.spawn, hcheck]⟩

theorem Cli.dispatch_ok {cli : Cli} {args : RunArgs} (h : cli.dispatch = .ok args) :
    parseEnv cli.env = .ok args.envs ∧ args.clearEnv = cli.clearEnv ∧
      cli.whoami = some args.whoami ∧ cli.dir = some args.dir ∧
      args.argv = cli.args ∧ args.argv ≠ [] := by
  unfold Cli.dispatch at h
  split at h
  · cases h
  · rename_i whoami hwhoami
    split at h
    · cases h
    · rename_i dir hdir
      split at h
      · cases h
      · rename_i hargs
        split at h
        · cases h
        · rename_i envs henvs
          cases h
          exact ⟨henvs, rfl, hwhoami, hdir, rfl, by simpa using hargs⟩

theorem RunArgs.request_eq_some {args : RunArgs} {stdin : String} {request : Request}
    (h : args.request stdin = some request) :
    request.envs = args.envs.foldl (fun envs kv => envs.insert kv.1 kv.2) ∅ ∧
      request.clearEnv = args.clearEnv ∧ request.whoami = args.whoami ∧
      request.exec = args.argv ∧ bytes request.dir = args.dir := by
  unfold RunArgs.request at h
  split at h
  · cases h
  · rename_i dir hdir
    cases h
    exact ⟨rfl, rfl, rfl, rfl, (fromUtf8_eq_some_iff.mp hdir).symm⟩

/-- The map of a request holds arguments of the command line only. -/
theorem mem_of_foldl_insert {envs : List (String × String)} {kv : String × String}
    (h : kv ∈ (envs.foldl (fun m kv => m.insert kv.1 kv.2) (∅ : Envs)).toList) : kv ∈ envs := by
  obtain ⟨k, v⟩ := kv
  have hlookup := Std.ExtTreeMap.mem_toList_iff_getElem?_eq_some.mp h
  have hvalue : valueOf (envs.foldl (fun m kv => m.insert kv.1 kv.2) (∅ : Envs)) (bytes k) =
      some (bytes v) := by
    rw [valueOf, fromUtf8_bytes, Option.bind_some, hlookup]
    rfl
  rw [valueOf_foldl] at hvalue
  obtain ⟨kv, hfound, hv⟩ := Option.map_eq_some_iff.mp hvalue
  have hk : bytes kv.1 = bytes k := by simpa using List.find?_some hfound
  have hmem := List.mem_reverse.mp (List.mem_of_find?_eq_some hfound)
  rwa [show kv = (k, v) from Prod.ext (bytes_inj.mp hk) (bytes_inj.mp hv)] at hmem

/-- What is given without a NUL passes the checks. -/
theorem Cli.check_eq_none {cli : Cli} {args : RunArgs} {stdin : String} {request : Request}
    (hcli : cli.dispatch = .ok args) (hrequest : args.request stdin = some request)
    (htexts : ∀ text ∈ args.whoami :: (cli.args ++ cli.env), hasNul text = false)
    (hdir : ∀ dir ∈ cli.dir, 0 ∉ dir) : request.check = none := by
  obtain ⟨hparse, -, -, hcliDir, hargv, hne⟩ := Cli.dispatch_ok hcli
  obtain ⟨henvs, -, hwhoami, hexec, hrequestDir⟩ := RunArgs.request_eq_some hrequest
  obtain ⟨hbytes, hnames⟩ := parseEnv_ok hparse
  rw [Request.check_eq_none_iff, hexec, hwhoami, henvs]
  refine ⟨hne, fun arg harg => htexts arg ?_, htexts _ (by simp), fun kv hkv => ?_, ?_⟩
  · rw [hargv] at harg
    simp [harg]
  · have hmem := mem_of_foldl_insert hkv
    obtain ⟨entry, hentry, heq⟩ : ∃ entry ∈ cli.env,
        bytes entry = bytes kv.1 ++ equals :: bytes kv.2 :=
      List.mem_map.mp (hbytes ▸ List.mem_map.mpr ⟨kv, hmem, rfl⟩)
    have hnul := hasNul_eq_false.mp (htexts entry (by simp [hentry]))
    rw [heq, List.mem_append, List.mem_cons, not_or, not_or] at hnul
    have hname : kv.1.toList.any (· = '=') = false := by
      rw [List.any_eq_false]
      rintro c hc hequals
      obtain rfl := of_decide_eq_true hequals
      exact (hnames kv hmem).1 (equals_mem_bytes.mpr hc)
    simp [checkEnv, hname, hasNul_eq_false.mpr hnul.1, hasNul_eq_false.mpr hnul.2.2]
  · rw [hasNul_eq_false, hrequestDir]
    exact hdir _ hcliDir

theorem ExecTool.request_eq_some {tool : ExecTool} {whoami : String} {request : Request}
    (h : tool.request whoami = some request) :
    request.envs = tool.env ∧ request.clearEnv = tool.clearEnv ∧ request.whoami = whoami := by
  unfold ExecTool.request at h
  split at h
  · cases h
  · cases h
    exact ⟨rfl, rfl, rfl⟩

/-- The host reads a request as it was sent. -/
theorem received {J : JsonText} (hJ : J.Lawful) (request : Request) :
    J.decode Request.ofJson (trimEnd (J.line request.toJson)) = some request := by
  have htrim := (Message.request request).trimEnd_line hJ
  rw [Message.toJson] at htrim
  rw [htrim, request.decode_toString hJ]

/-- A request that is not refused and has no empty name can be run. -/
theorem Request.runs_after {r : Request} (hcheck : r.check = none)
    (hnames : ∀ kv ∈ r.envs.toList, kv.1 ≠ "") (host : Entries) :
    r.Runs host (Setup.after r.childCalls host) := by
  have hcan : ∀ call ∈ r.childCalls, call.canSucceed = true := by
    intro call hcall
    simp only [Request.childCalls, List.mem_append, List.mem_cons, List.mem_map,
      List.not_mem_nil, or_false] at hcall
    rcases hcall with (((rfl | rfl) | hclear) | ⟨kv, hkv, rfl⟩) | (rfl | rfl)
    · rfl
    · rfl
    · split at hclear
      · rw [List.mem_singleton.mp hclear]
        rfl
      · cases hclear
    · have hne : bytes kv.1 ≠ [] := fun h =>
        hnames kv hkv (bytes_inj.mp (show bytes kv.1 = bytes "" from h))
      have hname := checkEnv_name (Request.check_envs hcheck kv hkv)
      simpa [ChildCall.canSucceed, settable, hname] using hne
    · simp only [ChildCall.canSucceed]
      decide
    · rfl
  exact ⟨hcheck, _, _, Setup.run_calls (by simp [Request.childCalls]) hcan host, rfl, rfl⟩

/--
The environment of a command.

* For a command line: the host reads the request that was sent; without a NUL it passes the
  checks, and then it can be run.  The program that is started has the identity of the
  command line, then for every other name its last argument, then what is inherited.
* For a call of the tool, the same with the map of the call.
* For any request, with the map of the request.
* A request with a bad name is refused before the parent makes any call.
-/
theorem child_environment {J : JsonText} (hJ : J.Lawful) (host : Entries) :
    (∀ (cli : Cli) (whoami : String) (args : RunArgs) (stdin : String) (request : Request),
      cli.whoami = some whoami → cli.dispatch = .ok args → args.request stdin = some request →
      J.decode Request.ofJson (trimEnd (J.line request.toJson)) = some request ∧
        ((∀ text ∈ whoami :: (cli.args ++ cli.env), hasNul text = false) →
          (∀ dir ∈ cli.dir, 0 ∉ dir) → request.check = none) ∧
        (request.check = none → ∃ environ, request.Runs host environ) ∧
        ∀ environ, request.Runs host environ →
          Composed environ host cli.clearEnv whoami (lastValue cli.env)) ∧
    (∀ (tool : ExecTool) (whoami : String) (request : Request),
      tool.request whoami = some request →
      J.decode Request.ofJson (trimEnd (J.line request.toJson)) = some request ∧
        ∀ environ, request.Runs host environ →
          Composed environ host tool.clearEnv whoami (valueOf tool.env)) ∧
    (∀ request : Request,
      (request.check = none → (∀ kv ∈ request.envs.toList, kv.1 ≠ "") →
        ∃ environ, request.Runs host environ) ∧
      ∀ environ, request.Runs host environ →
        Composed environ host request.clearEnv request.whoami (valueOf request.envs)) ∧
    ∀ (request : Request) (answer : ParentCall → Option SpawnError) (pid : Nat),
      (∃ kv ∈ request.envs.toList, '=' ∈ kv.1.toList ∨ hasNul kv.1 = true) →
      ∃ err, request.spawn answer pid = ([], .error err) := by
  have hexists : ∀ request : Request, request.check = none →
      (∀ kv ∈ request.envs.toList, kv.1 ≠ "") → ∃ environ, request.Runs host environ :=
    fun request hcheck hnames => ⟨_, Request.runs_after hcheck hnames host⟩
  refine ⟨?_, ?_, fun request => ⟨hexists request, fun _ => composed_of_runs⟩,
    fun _ answer pid h => spawn_bad_name h answer pid⟩
  · intro cli whoami args stdin request hcaller hcli hrequest
    obtain ⟨hparse, hclear, hwhoami, -⟩ := Cli.dispatch_ok hcli
    obtain rfl : args.whoami = whoami := Option.some.inj (hwhoami.symm.trans hcaller)
    obtain ⟨henvs, hclear', hwhoami', -⟩ := RunArgs.request_eq_some hrequest
    refine ⟨received hJ request, Cli.check_eq_none hcli hrequest, fun hcheck => ?_,
      fun environ hruns name hname => ?_⟩
    · refine hexists request hcheck fun kv hkv => ?_
      rw [henvs] at hkv
      exact ((parseEnv_ok hparse).2 kv (mem_of_foldl_insert hkv)).2
    · rw [composed_of_runs hruns name hname, henvs, valueOf_parseEnv hparse hname, hclear',
        hclear, hwhoami']
  · intro tool whoami request hrequest
    refine ⟨received hJ request, fun environ hruns => ?_⟩
    obtain ⟨henvs, hclear, hwhoami⟩ := ExecTool.request_eq_some hrequest
    have hcomposed := composed_of_runs hruns
    rwa [henvs, hclear, hwhoami] at hcomposed

/-- A variable given twice, the second time with an equals sign in its value, and another
identity. -/
def sampleCli : Cli :=
  { whoami := some "me", dir := some (bytes "/"), env := ["A=1", "A=2=3", "REXEC_WHOAMI=you"]
    clearEnv := false, args := ["true"], readStdin := false, timeout := 0 }

/-- The request of `sampleCli`. -/
def sampleOverride : Request :=
  { sampleRequest with
    envs := (((∅ : Envs).insert "A" "1").insert "A" "2=3").insert "REXEC_WHOAMI" "you" }

theorem child_environment_sampleCli :
    ∃ environ, sampleOverride.Runs [bytes "A=0", bytes "B=1"] environ ∧
      getenv (bytes "A") environ = some (bytes "2=3") ∧
      getenv (bytes "B") environ = some (bytes "1") ∧
      getenv (bytes "REXEC_WHOAMI") environ = some (bytes "me") := by
  obtain ⟨-, hcheck, hexists, hcomposed⟩ :=
    (child_environment Json.compact_lawful [bytes "A=0", bytes "B=1"]).1 sampleCli "me"
      ⟨"me", bytes "/", [("A", "1"), ("A", "2=3"), ("REXEC_WHOAMI", "you")], false, ["true"],
        false, 0⟩ ""
      sampleOverride rfl rfl rfl
  obtain ⟨environ, hruns⟩ := hexists (hcheck (by decide) (by decide))
  refine ⟨environ, hruns, ?_, ?_, ?_⟩
  · rw [hcomposed environ hruns (bytes "A") (by decide)]
    decide
  · rw [hcomposed environ hruns (bytes "B") (by decide)]
    decide
  · rw [hcomposed environ hruns (bytes "REXEC_WHOAMI") (by decide)]
    decide

end Law

end Rexec

import Kiyomi.Dns.Usable
import Kiyomi.Foundation.Dialogues

namespace Kiyomi.Dns

open Go Go.Url

/-! # Dialing through resolvers

`DialFunc` asks its resolvers one after the other for the address of a host, and the system
only when all of them have failed. Names, addresses and messages are bytes; connections and
response bodies are numbers. -/

/-- A decoded reply of a resolver: for each of its answers the text of the address, if it is
an A record. -/
structure Message where
  truncated : Bool
  answer : List (Option (List UInt8))

/-- The first A record. -/
def Message.address (m : Message) : Option (List UInt8) := m.answer.findSome? id

/-- Who uses a connection. -/
inductive Dialer
  | lookup
  /-- The transport of a DNS-over-HTTPS client, which keeps it for later requests. -/
  | transport
  | caller

inductive Method
  | get
  | post

inductive NetCall
  /-- `LookupIP` of the resolver of the system. -/
  | lookupIP (host : List UInt8)
  | dial (dialer : Dialer) (network addr : List UInt8)
  /-- `ExchangeContext` of a DNS client. -/
  | exchange (network addr host : List UInt8)
  | handshake (conn : Nat) (serverName : List UInt8) (insecureSkipVerify : Bool)
  | write (conn : Nat) (content : List UInt8)
  | readFull (conn size : Nat)
  | close (conn : Nat)
  /-- Whether the transport has a connection left. -/
  | idle (baseURL : List UInt8)
  /-- A request about a packed question: in base64 in the query of a GET, in the body of a POST. -/
  | send (method : Method) (baseURL wire : List UInt8)
  | discard (body : Nat)
  | readAll (body : Nat)
  | closeBody (body : Nat)

abbrev NetCall.Reply : NetCall → Type
  | .lookupIP _ => Option (List (List UInt8))
  | .dial _ _ _ => Option Nat
  | .exchange _ _ _ => Option Message
  | .handshake _ _ _ => Bool
  | .write _ _ => Bool
  | .readFull _ _ => Option (List UInt8)
  | .close _ => Unit
  | .idle _ => Bool
  -- the status and the body
  | .send _ _ _ => Option (Nat × Nat)
  | .discard _ => Unit
  | .readAll _ => Option (List UInt8)
  | .closeBody _ => Unit

abbrev NetEffect := Program NetCall NetCall.Reply

abbrev NetDialogue := Program.Dialogue NetCall NetCall.Reply

def ask (c : NetCall) : NetEffect c.Reply := Program.perform c

/-! ## Addresses -/

def joinHostPort (host port : List UInt8) : List UInt8 :=
  if colon ∈ host then openBracket :: host ++ closeBracket :: colon :: port
  else host ++ colon :: port

/-- `net.SplitHostPort`. -/
def splitAddress (hostport : List UInt8) : Option (List UInt8 × List UInt8) :=
  match Cuts.cutLast colon hostport with
  | none => none
  | some (host, port) =>
      if host.head? = some openBracket then
        let address := host.tail.dropLast
        if host.tail.getLast? = some closeBracket ∧ closeBracket ∉ address ++ port ∧
            openBracket ∉ address ++ port then some (address, port)
        else none
      else if colon ∉ host ∧ openBracket ∉ host ++ port ∧ closeBracket ∉ host ++ port then
        some (host, port)
      else none

/-! ## Lookups -/

def tcp : List UInt8 := utf8 "tcp"
def udp : List UInt8 := utf8 "udp"

/-- `net.ParseIP`, `http.NewRequest`, and the messages of the DNS package: the packed question
for the A records of a host, and what a reply is unpacked to. -/
structure NetRules where
  isAddress : List UInt8 → Bool
  isRequestURL : List UInt8 → Bool
  pack : List UInt8 → Option (List UInt8)
  unpack : List UInt8 → Option Message

def lookupPlain (hostname server : List UInt8) (port : Nat) : NetEffect (Option (List UInt8)) := do
  match ← ask (.exchange udp (joinHostPort server (decimal port)) hostname) with
  | none => pure none
  | some reply =>
      if reply.truncated then
        match ← ask (.exchange tcp (joinHostPort server (decimal port)) hostname) with
        | none => pure none
        | some reply => pure reply.address
      else pure reply.address

/-- The length of a message, in two bytes. -/
def lengthBytes (buf : List UInt8) : List UInt8 :=
  [UInt8.ofNat (buf.length / 256), UInt8.ofNat buf.length]

def lengthOf (respLenBuf : List UInt8) : Nat :=
  (respLenBuf.getD 0 0).toNat * 256 + (respLenBuf.getD 1 0).toNat

namespace NetRules

variable (w : NetRules)

/-- A bootstrap address; that of a server with a name is looked up where there is none. -/
def dotBootstrap (server : List UInt8) (bootstrap : List (List UInt8)) :
    NetEffect (Option (List (List UInt8))) :=
  if w.isAddress server || !bootstrap.isEmpty then pure (some bootstrap)
  else do
    match ← ask (.lookupIP server) with
    | some (ip :: _) => pure (some [ip])
    | _ => pure none

/-- The address that is dialed, and the name in the certificate. -/
def dotAddress (server : List UInt8) (port : Nat) (bootstrap : List (List UInt8)) : List UInt8 :=
  joinHostPort (if w.isAddress server then server else bootstrap.headD []) (decimal port)

/-- A lookup on an open connection. -/
def dotExchange (hostname server : List UInt8) (insecureSkipVerify : Bool) (conn : Nat) :
    NetEffect (Option (List UInt8)) := do
  if !(← ask (.handshake conn server insecureSkipVerify)) then
    let _ ← ask (.close conn)
    pure none
  else
    match w.pack hostname with
    | none => do
        let _ ← ask (.close conn)
        pure none
    | some buf => do
        if !(← ask (.write conn (lengthBytes buf ++ buf))) then
          let _ ← ask (.close conn)
          pure none
        else
          match ← ask (.readFull conn 2) with
          | none => do
              let _ ← ask (.close conn)
              pure none
          | some respLenBuf => do
              match ← ask (.readFull conn (lengthOf respLenBuf)) with
              | none => do
                  let _ ← ask (.close conn)
                  pure none
              | some respBuf => do
                  let _ ← ask (.close conn)
                  pure ((w.unpack respBuf).bind Message.address)

def lookupDoT (hostname server : List UInt8) (port : Nat) (bootstrap : List (List UInt8)) :
    NetEffect (Option (List UInt8)) := do
  match ← w.dotBootstrap server bootstrap with
  | none => pure none
  | some bootstrap =>
      -- a bootstrap that the system has given counts as well
      match ← ask (.dial .lookup tcp (w.dotAddress server port bootstrap)) with
      | none => pure none
      | some conn => w.dotExchange hostname server (!bootstrap.isEmpty) conn

def baseURL (server : List UInt8) (port : Nat) (path : List UInt8) : List UInt8 :=
  https ++ separator ++ server ++ colon :: decimal port ++
    (if path = [] then defaultDoHPath else path)

/-- `DialContext` of the transport. -/
def dohDial (server : List UInt8) (port : Nat) (bootstrap : List (List UInt8)) :
    NetEffect (Option Nat) := do
  if !w.isAddress server && bootstrap.isEmpty then
    match ← ask (.lookupIP server) with
    | some (ip :: _) => ask (.dial .transport tcp (joinHostPort ip (decimal port)))
    | _ => pure none
  else ask (.dial .transport tcp (joinHostPort (bootstrap.headD server) (decimal port)))

/-- `Do` of the client. -/
def dohDo (server : List UInt8) (port : Nat) (path : List UInt8) (bootstrap : List (List UInt8))
    (method : Method) (wire : List UInt8) : NetEffect (Option (Nat × Nat)) := do
  if ← ask (.idle (baseURL server port path)) then
    ask (.send method (baseURL server port path) wire)
  else
    match ← w.dohDial server port bootstrap with
    | none => pure none
    | some _ => ask (.send method (baseURL server port path) wire)

def dohRead (body : Nat) : NetEffect (Option (List UInt8)) := do
  let content ← ask (.readAll body)
  let _ ← ask (.closeBody body)
  pure ((content.bind w.unpack).bind Message.address)

def lookupDoH (hostname server : List UInt8) (port : Nat) (path : List UInt8)
    (bootstrap : List (List UInt8)) : NetEffect (Option (List UInt8)) :=
  match w.pack hostname with
  | none => pure none
  | some wire =>
      if !w.isRequestURL (baseURL server port path) then pure none
      else do
        match ← w.dohDo server port path bootstrap .get wire with
        | none => pure none
        | some (statusCode, body) =>
            if statusCode = 200 then w.dohRead body
            else do
              let _ ← ask (.discard body)
              let _ ← ask (.closeBody body)
              match ← w.dohDo server port path bootstrap .post wire with
              | none => pure none
              | some (_, body) => w.dohRead body

/-- One resolver; a scheme without a lookup has no answer. -/
def resolve (hostname : List UInt8) (spec : Spec) : NetEffect (Option (List UInt8)) :=
  match resolveWithSpec spec with
  | none => pure none
  | some (.plain server port) => lookupPlain hostname server port
  | some (.dot server port bootstrap) => w.lookupDoT hostname server port bootstrap
  | some (.doh server port path bootstrap) => w.lookupDoH hostname server port path bootstrap

/-- Try each resolver in order. -/
def dialThrough (network host port : List UInt8) : List Spec → NetEffect (Option Nat)
  | [] => do
      match ← ask (.lookupIP host) with
      | some (ip :: _) => ask (.dial .caller network (joinHostPort ip port))
      | _ => pure none
  | spec :: specs => do
      match ← w.resolve host spec with
      | none => dialThrough network host port specs
      | some ip => ask (.dial .caller network (joinHostPort ip port))

def dialFunc (specs : List Spec) (network addr : List UInt8) : NetEffect (Option Nat) :=
  match splitAddress addr with
  | none => pure none
  | some (host, port) => w.dialThrough network host port specs

/-! ## What the network sees -/

/-- The connections and response bodies that are open, and the address that was told last. -/
structure Sight where
  conns : List Nat
  bodies : List Nat
  told : Option (List UInt8)

def Sight.nothing : Sight := ⟨[], [], none⟩

/-- A connection of a transport is the transport's. -/
def after (seen : Sight) : (c : NetCall) → c.Reply → Sight
  | .dial .transport _ _, _ => seen
  | .dial _ _ _, some conn => { seen with conns := conn :: seen.conns }
  | .exchange _ _ _, some reply => { seen with told := reply.address }
  | .readFull _ _, some content => { seen with told := (w.unpack content).bind Message.address }
  | .close conn, _ => { seen with conns := seen.conns.erase conn }
  | .send _ _ _, some (_, body) => { seen with bodies := body :: seen.bodies }
  | .readAll _, some content => { seen with told := (w.unpack content).bind Message.address }
  | .closeBody body, _ => { seen with bodies := seen.bodies.erase body }
  | _, _ => seen

def sight (seen : Sight) (said : NetDialogue) : Sight :=
  said.foldl (fun seen entry => w.after seen entry.1 entry.2) seen

/-- A resolver that is known by its name only. -/
def IsNamed (spec : Spec) : Prop := w.isAddress spec.host = false ∧ spec.bootstrap = []

/-- A call that a resolver needs to be asked for a host. The system learns the name of the
resolver at most. -/
def Concerns (spec : Spec) (hostname : List UInt8) : NetCall → Prop
  | .lookupIP name => name = spec.host ∧ w.IsNamed spec ∧ (spec.scheme = tls ∨ spec.scheme = https)
  | .dial dialer network addr =>
      network = tcp ∧
        (dialer = .lookup ∧ spec.scheme = tls ∨ dialer = .transport ∧ spec.scheme = https) ∧
        (w.IsNamed spec ∨
          ∃ ip ∈ spec.host :: spec.bootstrap, addr = joinHostPort ip (decimal spec.port))
  | .exchange _ addr name =>
      spec.scheme = dns ∧ addr = joinHostPort spec.host (decimal spec.port) ∧ name = hostname
  | .handshake _ serverName insecureSkipVerify =>
      spec.scheme = tls ∧ serverName = spec.host ∧
        (insecureSkipVerify = false ↔ w.isAddress spec.host = true ∧ spec.bootstrap = [])
  | .write _ content =>
      spec.scheme = tls ∧ ∃ buf, w.pack hostname = some buf ∧ content = lengthBytes buf ++ buf
  | .send _ url wire =>
      spec.scheme = https ∧ url = baseURL spec.host spec.port spec.path ∧
        w.pack hostname = some wire
  | .idle url => url = baseURL spec.host spec.port spec.path
  | _ => True

def watch (spec : Spec) (hostname : List UInt8) : Program.Watch NetCall NetCall.Reply Sight where
  after := w.after
  allowed _ := w.Concerns spec hostname
  possible _ _ := True

/-- A lookup closes what it opens, and its answer was told last. -/
structure Settled (seen later : Sight) (answer : Option (List UInt8)) : Prop where
  conns : later.conns = seen.conns
  bodies : later.bodies = seen.bodies
  told : ∀ ip, answer = some ip → later.told = some ip

section Watched

variable {w} {spec : Spec} {hostname : List UInt8} {seen later : Sight}

theorem watched_ask {post : Sight → α → Prop} {c : NetCall} {next : c.Reply → NetEffect α}
    (allowed : w.Concerns spec hostname c)
    (rest : ∀ reply, (next reply).Watched (w.watch spec hostname) post (w.after seen c reply)) :
    (ask c >>= next).Watched (w.watch spec hostname) post seen :=
  ⟨allowed, fun reply _ => rest reply⟩

theorem Settled.silent (conns : later.conns = seen.conns) (bodies : later.bodies = seen.bodies) :
    Settled seen later none :=
  ⟨conns, bodies, fun _ told => by contradiction⟩

theorem lookupPlain_watched (scheme : spec.scheme = dns) :
    (lookupPlain hostname spec.host spec.port).Watched (w.watch spec hostname) (Settled seen)
      seen := by
  unfold lookupPlain
  refine watched_ask ⟨scheme, rfl, rfl⟩ fun reply => ?_
  split
  · exact Settled.silent rfl rfl
  split
  · refine watched_ask ⟨scheme, rfl, rfl⟩ fun reply => ?_
    split
    · exact Settled.silent rfl rfl
    · exact ⟨rfl, rfl, fun ip told => told⟩
  · exact ⟨rfl, rfl, fun ip told => told⟩

theorem close_watched {conn : Nat} {answer : Option (List UInt8)}
    (conns : later.conns = conn :: seen.conns) (bodies : later.bodies = seen.bodies)
    (told : ∀ ip, answer = some ip → later.told = some ip) :
    (ask (.close conn) >>= fun _ => pure answer).Watched (w.watch spec hostname) (Settled seen)
      later := by
  refine watched_ask trivial fun _ => ?_
  refine Settled.mk ?_ bodies told
  exact (congrArg (List.erase · conn) conns).trans (List.erase_cons_head conn seen.conns)

theorem dotExchange_watched {conn : Nat} {insecureSkipVerify : Bool}
    (scheme : spec.scheme = tls)
    (skips : insecureSkipVerify = false ↔ w.isAddress spec.host = true ∧ spec.bootstrap = [])
    (conns : later.conns = conn :: seen.conns) (bodies : later.bodies = seen.bodies) :
    (w.dotExchange hostname spec.host insecureSkipVerify conn).Watched (w.watch spec hostname)
      (Settled seen) later := by
  unfold dotExchange
  refine watched_ask ⟨scheme, rfl, skips⟩ fun shaken => ?_
  split
  · exact close_watched conns bodies fun _ told => by contradiction
  split
  · exact close_watched conns bodies fun _ told => by contradiction
  rename_i buf packed
  refine watched_ask ⟨scheme, buf, packed, rfl⟩ fun written => ?_
  split
  · exact close_watched conns bodies fun _ told => by contradiction
  refine watched_ask trivial fun respLenBuf => ?_
  split
  · exact close_watched conns bodies fun _ told => by contradiction
  refine watched_ask trivial fun respBuf => ?_
  split
  · exact close_watched conns bodies fun _ told => by contradiction
  · exact close_watched conns bodies fun _ told => told

/-- The bootstrap that the lookup goes on with: the configured one, or for a resolver that
is known by name an address of that name. -/
theorem dotBootstrap_watched (scheme : spec.scheme = tls) :
    (w.dotBootstrap spec.host spec.bootstrap).Watched (w.watch spec hostname)
      (fun later answer => later.conns = seen.conns ∧ later.bodies = seen.bodies ∧
        ∀ bootstrap, answer = some bootstrap →
          bootstrap = spec.bootstrap ∧ ¬w.IsNamed spec ∨
            w.IsNamed spec ∧ bootstrap ≠ []) seen := by
  unfold dotBootstrap
  split
  · rename_i given
    refine ⟨rfl, rfl, fun bootstrap same => .inl ⟨(Option.some.inj same).symm, ?_⟩⟩
    rintro ⟨notAddress, none⟩
    simp [notAddress, none] at given
  · rename_i missing
    have named : w.IsNamed spec := by simpa [IsNamed] using missing
    refine watched_ask ⟨rfl, named, .inl scheme⟩ fun found => ?_
    split
    · refine ⟨rfl, rfl, fun bootstrap same => .inr ⟨named, ?_⟩⟩
      cases same
      exact List.cons_ne_nil _ _
    · exact ⟨rfl, rfl, fun bootstrap same => by contradiction⟩

theorem lookupDoT_watched (scheme : spec.scheme = tls) :
    (w.lookupDoT hostname spec.host spec.port spec.bootstrap).Watched (w.watch spec hostname)
      (Settled seen) seen := by
  unfold lookupDoT
  refine Program.Watched.bind (dotBootstrap_watched scheme) fun later answer known => ?_
  rcases known with ⟨conns, bodies, known⟩
  split
  · exact Settled.silent conns bodies
  rename_i bootstrap
  have skips : (!bootstrap.isEmpty) = false ↔
      w.isAddress spec.host = true ∧ spec.bootstrap = [] := by
    rcases known bootstrap rfl with ⟨rfl, unnamed⟩ | ⟨named, given⟩
    · simp only [IsNamed, not_and] at unnamed
      simp only [Bool.not_eq_false', List.isEmpty_iff]
      refine ⟨fun none => ⟨?_, none⟩, And.right⟩
      simpa [none] using unnamed
    · simp [given, named.1]
  have isTarget : w.IsNamed spec ∨ ∃ ip ∈ spec.host :: spec.bootstrap,
      w.dotAddress spec.host spec.port bootstrap = joinHostPort ip (decimal spec.port) := by
    rcases known bootstrap rfl with ⟨rfl, unnamed⟩ | ⟨named, _⟩
    · right
      unfold dotAddress
      split
      · exact ⟨_, List.mem_cons_self, rfl⟩
      · rename_i notAddress
        cases bootstraps : spec.bootstrap with
        | nil => exact (unnamed ⟨by simpa using notAddress, bootstraps⟩).elim
        | cons ip others => exact ⟨ip, by simp, rfl⟩
    · exact .inl named
  refine watched_ask ⟨rfl, .inl ⟨rfl, scheme⟩, isTarget⟩ fun dialed => ?_
  split
  · exact Settled.silent conns bodies
  · exact dotExchange_watched scheme skips (congrArg _ conns) bodies

/-- The transport keeps the connections that it dials. -/
theorem dohDial_watched (scheme : spec.scheme = https) :
    (w.dohDial spec.host spec.port spec.bootstrap).Watched (w.watch spec hostname)
      (fun later _ => later = seen) seen := by
  unfold dohDial
  split
  · rename_i missing
    have named : w.IsNamed spec := by simpa [IsNamed] using missing
    refine watched_ask ⟨rfl, named, .inr scheme⟩ fun found => ?_
    split
    · exact ⟨⟨rfl, .inr ⟨rfl, scheme⟩, .inl named⟩, fun _ _ => rfl⟩
    · exact rfl
  · refine ⟨⟨rfl, .inr ⟨rfl, scheme⟩, .inr ⟨_, ?_, rfl⟩⟩, fun _ _ => rfl⟩
    cases spec.bootstrap with
    | nil => exact List.mem_cons_self
    | cons ip others => exact List.mem_cons_of_mem _ List.mem_cons_self

/-- A request opens the body of its response. -/
theorem dohDo_watched (scheme : spec.scheme = https) (method : Method) {wire : List UInt8}
    (packed : w.pack hostname = some wire) :
    (w.dohDo spec.host spec.port spec.path spec.bootstrap method wire).Watched
      (w.watch spec hostname)
      (fun later answer => later.conns = seen.conns ∧
        later.bodies = (answer.map Prod.snd).toList ++ seen.bodies) seen := by
  have sent : ∀ seen : Sight, (ask (.send method (baseURL spec.host spec.port spec.path) wire) :
      NetEffect (Option (Nat × Nat))).Watched (w.watch spec hostname)
      (fun later answer => later.conns = seen.conns ∧
        later.bodies = (answer.map Prod.snd).toList ++ seen.bodies) seen := by
    intro seen
    refine ⟨⟨scheme, rfl, packed⟩, fun reply _ => ?_⟩
    cases reply with
    | none => exact ⟨rfl, rfl⟩
    | some response => exact ⟨rfl, rfl⟩
  unfold dohDo
  refine watched_ask rfl fun idle => ?_
  split
  · exact sent _
  · refine Program.Watched.bind (dohDial_watched scheme) fun later dialed same => ?_
    rw [same]
    split
    · exact ⟨rfl, rfl⟩
    · exact sent _

theorem dohRead_watched {body : Nat} (conns : later.conns = seen.conns)
    (bodies : later.bodies = body :: seen.bodies) :
    (w.dohRead body).Watched (w.watch spec hostname) (Settled seen) later := by
  unfold dohRead
  refine watched_ask trivial fun content => ?_
  refine watched_ask trivial fun _ => ?_
  cases content with
  | none =>
      exact Settled.silent conns
        ((congrArg (List.erase · body) bodies).trans (List.erase_cons_head body seen.bodies))
  | some content =>
      exact ⟨conns, (congrArg (List.erase · body) bodies).trans
        (List.erase_cons_head body seen.bodies), fun ip told => told⟩

theorem lookupDoH_watched (scheme : spec.scheme = https) :
    (w.lookupDoH hostname spec.host spec.port spec.path spec.bootstrap).Watched
      (w.watch spec hostname) (Settled seen) seen := by
  unfold lookupDoH
  split
  · exact Settled.silent rfl rfl
  rename_i wire packed
  split
  · exact Settled.silent rfl rfl
  refine Program.Watched.bind (dohDo_watched scheme .get packed) fun later answer known => ?_
  split
  · exact Settled.silent known.1 known.2
  split
  · exact dohRead_watched known.1 known.2
  rename_i body _
  refine watched_ask trivial fun _ => watched_ask trivial fun _ => ?_
  have bodies : later.bodies.erase body = seen.bodies := by
    rw [known.2]
    exact List.erase_cons_head body seen.bodies
  refine Program.Watched.bind (dohDo_watched scheme .post packed) fun last answer known' => ?_
  split
  · exact Settled.silent (known'.1.trans known.1) (known'.2.trans bodies)
  · exact dohRead_watched (known'.1.trans known.1) (known'.2.trans (congrArg _ bodies))

theorem resolve_watched :
    (w.resolve hostname spec).Watched (w.watch spec hostname) (Settled seen) seen := by
  unfold resolve resolveWithSpec
  by_cases plain : spec.scheme = dns
  · rw [if_pos plain]
    exact lookupPlain_watched plain
  rw [if_neg plain]
  by_cases dot : spec.scheme = tls
  · rw [if_pos dot]
    exact lookupDoT_watched dot
  rw [if_neg dot]
  by_cases doh : spec.scheme = https
  · rw [if_pos doh]
    exact lookupDoH_watched doh
  · rw [if_neg doh]
    exact Settled.silent rfl rfl

end Watched

/-! ## The order of the resolvers -/

/-- What is said when one resolver is asked for a host. -/
structure Asked (hostname : List UInt8) (answer : Option (List UInt8)) (spec : Spec)
    (said : NetDialogue) : Prop where
  answered : (w.resolve hostname spec).Answered said answer
  concerns : ∀ entry ∈ said, w.Concerns spec hostname entry.1
  settled : ∀ seen, Settled seen (w.sight seen said) answer

/-- How a dialogue comes to a connection: every resolver before the one that answers has
been asked and had no address, and the system is asked when none is left. -/
inductive Dialed (network host port : List UInt8) :
    List Spec → NetDialogue → Option Nat → Prop
  | resolved {failed rest : List Spec} {spec : Spec}
      {silent : List (NetDialogue)}
      {part : NetDialogue} {ip : List UInt8} {result : Option Nat}
      (asked : List.Forall₂ (w.Asked host none) failed silent)
      (told : w.Asked host (some ip) spec part) :
      Dialed network host port (failed ++ spec :: rest)
        (silent.flatten ++ part ++ [⟨.dial .caller network (joinHostPort ip port), result⟩]) result
  | system {specs : List Spec} {silent : List (NetDialogue)}
      {ip : List UInt8} {others : List (List UInt8)} {result : Option Nat}
      (asked : List.Forall₂ (w.Asked host none) specs silent) :
      Dialed network host port specs
        (silent.flatten ++ [⟨.lookupIP host, some (ip :: others)⟩,
          ⟨.dial .caller network (joinHostPort ip port), result⟩]) result
  | unknown {specs : List Spec} {silent : List (NetDialogue)}
      {addresses : Option (List (List UInt8))} (none_found : addresses.getD [] = [])
      (asked : List.Forall₂ (w.Asked host none) specs silent) :
      Dialed network host port specs (silent.flatten ++ [⟨.lookupIP host, addresses⟩]) none

section Order

variable {w} {network host port hostname : List UInt8} {spec : Spec} {specs : List Spec}
  {said : NetDialogue} {result : Option Nat}

theorem asked_of_answered {answer : Option (List UInt8)}
    (answered : (w.resolve hostname spec).Answered said answer) :
    w.Asked hostname answer spec said := by
  refine ⟨answered, fun entry member => ?_, fun seen => ?_⟩
  · have watched : (w.resolve hostname spec).Watched (w.watch spec hostname)
        (Settled Sight.nothing) Sight.nothing := resolve_watched
    rcases (watched.answered answered fun _ _ => trivial).2 entry member with ⟨_, allowed⟩
    exact allowed
  · exact (resolve_watched.answered answered fun _ _ => trivial).1

theorem Dialed.cons {silent : NetDialogue}
    (asked : w.Asked host none spec silent)
    (dialed : w.Dialed network host port specs said result) :
    w.Dialed network host port (spec :: specs) (silent ++ said) result := by
  cases dialed with
  | @resolved failed rest first parts part ip _ others told =>
      have all : w.Dialed network host port (spec :: failed ++ first :: rest)
          ((silent :: parts).flatten ++ part ++
            [⟨.dial .caller network (joinHostPort ip port), result⟩]) result :=
        .resolved (.cons asked others) told
      simpa using all
  | @system _ parts ip found _ others =>
      have all : w.Dialed network host port (spec :: specs) ((silent :: parts).flatten ++
          [⟨.lookupIP host, some (ip :: found)⟩,
            ⟨.dial .caller network (joinHostPort ip port), result⟩]) result :=
        .system (.cons asked others)
      simpa using all
  | @unknown _ parts addresses none_found others =>
      have all : w.Dialed network host port (spec :: specs) ((silent :: parts).flatten ++
          [⟨.lookupIP host, addresses⟩]) none :=
        .unknown none_found (.cons asked others)
      simpa using all

theorem dialed_of_answered
    (answered : (w.dialThrough network host port specs).Answered said result) :
    w.Dialed network host port specs said result := by
  induction specs generalizing said with
  | nil =>
      rcases (Program.answered_call).mp answered with ⟨addresses, rest, rfl, asked⟩
      have none_found : addresses.getD [] = [] →
          w.Dialed network host port [] [⟨.lookupIP host, addresses⟩] none :=
        fun none_found => .unknown none_found .nil
      rcases addresses with _ | ⟨_ | ⟨ip, others⟩⟩
      · rcases (Program.answered_done).mp asked with ⟨rfl, rfl⟩
        exact none_found rfl
      · rcases (Program.answered_done).mp asked with ⟨rfl, rfl⟩
        exact none_found rfl
      · rcases (Program.answered_call).mp asked with ⟨conn, others', rfl, last⟩
        rcases (Program.answered_done).mp last with ⟨rfl, rfl⟩
        exact .system .nil
  | cons spec specs induction =>
      rcases (Program.answered_bind).mp answered with ⟨part, rest, answer, rfl, asked, dialed⟩
      cases answer with
      | none => exact (induction dialed).cons (asked_of_answered asked)
      | some ip =>
          rcases (Program.answered_call).mp dialed with ⟨conn, others, rfl, last⟩
          rcases (Program.answered_done).mp last with ⟨rfl, rfl⟩
          have all : w.Dialed network host port ([] ++ spec :: specs) ([].flatten ++ part ++
              [⟨.dial .caller network (joinHostPort ip port), result⟩]) result :=
            .resolved .nil (asked_of_answered asked)
          exact all

/-- What a dialogue leaves open is the connection that it returns. -/
structure LeavesOpen (w : NetRules) (result : Option Nat)
    (said : NetDialogue) : Prop where
  conns : ∀ seen, (w.sight seen said).conns = result.toList ++ seen.conns
  bodies : ∀ seen, (w.sight seen said).bodies = seen.bodies

theorem sight_append (seen : Sight) (before after : NetDialogue) :
    w.sight seen (before ++ after) = w.sight (w.sight seen before) after :=
  List.foldl_append

namespace LeavesOpen

theorem append {before after : NetDialogue}
    (closed : LeavesOpen w none before) (last : LeavesOpen w result after) :
    LeavesOpen w result (before ++ after) where
  conns seen := by
    rw [sight_append, last.conns, closed.conns]
    rfl
  bodies seen := by rw [sight_append, last.bodies, closed.bodies]

theorem of_asked {answer : Option (List UInt8)} (asked : w.Asked hostname answer spec said) :
    LeavesOpen w none said :=
  ⟨fun seen => (asked.settled seen).conns, fun seen => (asked.settled seen).bodies⟩

theorem flatten {parts : List (NetDialogue)}
    (asked : List.Forall₂ (w.Asked hostname none) specs parts) :
    LeavesOpen w none parts.flatten := by
  induction asked with
  | nil => exact ⟨fun _ => rfl, fun _ => rfl⟩
  | cons first _ induction => exact (of_asked first).append induction

theorem dial (addr : List UInt8) :
    LeavesOpen w result [⟨.dial .caller network addr, result⟩] := by
  cases result with
  | none => exact ⟨fun _ => rfl, fun _ => rfl⟩
  | some conn => exact ⟨fun _ => rfl, fun _ => rfl⟩

theorem lookupIP (addresses : Option (List (List UInt8))) :
    LeavesOpen w none [⟨.lookupIP hostname, addresses⟩] :=
  ⟨fun _ => rfl, fun _ => rfl⟩

theorem of_dialed (dialed : w.Dialed network host port specs said result) :
    LeavesOpen w result said := by
  cases dialed with
  | resolved asked told => exact ((flatten asked).append (of_asked told)).append (dial _)
  | system asked => exact (flatten asked).append ((lookupIP _).append (dial _))
  | unknown _ asked => exact (flatten asked).append (lookupIP _)

end LeavesOpen

end Order

end NetRules

/-- A resolver that is known by its name. -/
def namedResolver : Spec := ⟨tls, utf8 "dns.test", 853, [], []⟩

def plainResolver : Spec := ⟨dns, utf8 "1.1.1.1", 53, [], []⟩

/-- Only digits and dots make an address; nothing is packed. -/
def digitRules : NetRules where
  isAddress host := host.all fun c => isDigit c || c == 0x2E
  isRequestURL _ := true
  pack _ := none
  unpack _ := none

/-- The name of the first resolver is not known; the second resolver answers. -/
def secondAnswers : NetDialogue :=
  [⟨.lookupIP (utf8 "dns.test"), none⟩,
    ⟨.exchange udp (joinHostPort (utf8 "1.1.1.1") (decimal 53)) (utf8 "cdn.test"),
      some ⟨false, [some (utf8 "192.0.2.7")]⟩⟩,
    ⟨.dial .caller tcp (joinHostPort (utf8 "192.0.2.7") (utf8 "443")), some 7⟩]

theorem namedResolver_fails (hostname : List UInt8) :
    (digitRules.resolve hostname namedResolver).Answered
      [⟨.lookupIP (utf8 "dns.test"), none⟩] none := by
  have isDoT : resolveWithSpec namedResolver = some (.dot (utf8 "dns.test") 853 []) := by
    decide +kernel
  rw [NetRules.resolve, isDoT]
  change (digitRules.lookupDoT hostname (utf8 "dns.test") 853 []).Answered _ _
  rw [NetRules.lookupDoT, NetRules.dotBootstrap, if_neg (by decide +kernel)]
  exact .call (.done _)

end Kiyomi.Dns

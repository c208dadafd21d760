import PeerApi.Session.Ownership

/-! Two peers and the signal server between them. The server relays the descriptions
and candidates that a peer sends on the channel of the other one, in order, and asks
a peer for an offer each time the other one joins its channel. What there is to
deliver is a function of what the peers have sent, so the net only counts what each
of them has received. -/

namespace PeerApi.Negotiation

open Base World

inductive Party where
  | a
  | b
  deriving DecidableEq, Repr

def Party.other : Party → Party
  | .a => .b
  | .b => .a

@[simp] theorem Party.other_other (p : Party) : p.other.other = p := by cases p <;> rfl

@[simp] theorem Party.other_ne (p : Party) : p.other ≠ p := by cases p <;> decide

theorem Party.eq_or_other (p q : Party) : q = p ∨ q = p.other := by
  cases p <;> cases q <;> simp [other]

/-- The message brings a description of the given type. -/
def carries (env : Env) (type : SdpType) (message : Json) : Bool :=
  (parseCommand env message).any fun c => c.1 = PeerControl.descriptionCommand type

theorem carries_iff {env : Env} {type : SdpType} {message : Json} :
    carries env type message = true ↔ ∃ peerId data,
      parseCommand env message = some (PeerControl.descriptionCommand type, peerId, data) := by
  simp only [carries, Option.any_eq_true, decide_eq_true_eq]
  constructor
  · rintro ⟨⟨command, peerId, data⟩, hp, rfl⟩
    exact ⟨peerId, data, hp⟩
  · rintro ⟨peerId, data, hp⟩
    exact ⟨_, hp, rfl⟩

/-- The instance will send its description once WebRTC has made it. -/
def Describing (w : World) (type : SdpType) (x : ℕ) : Prop :=
  x < w.nextInst ∧ (w.insts x).pending = some type ∧ (w.insts x).state = .connecting

instance (w : World) (type : SdpType) (x : ℕ) : Decidable (Describing w type x) := by
  unfold Describing
  infer_instance

/-- The instance is stored in `peers_` of the current session under the given id, or
was stored there and has been closed. -/
def HasEntry (w : World) (id : String) (y : ℕ) : Prop :=
  (∃ c, w.control = some c ∧ (w.controls c).peers.find? id = some y) ∨
    ((w.insts y).state = .closed ∧ .removed ∈ (w.insts y).log)

/-- The environments of the two peers. The rtc helpers read a string as itself. -/
structure Pair where
  env : Party → Env
  getString : ∀ p s, (env p).rtc.getStringFromJson (.str s) = some s

namespace Pair

variable (P : Pair)

def id (p : Party) : String := (P.env p).peerId

/-- What the server makes of a command sent by the party: a message for the other one,
with the instance that the command comes from. -/
def relay (p : Party) (sc : SentCommand) : Option (Json × Option ℕ) :=
  if sc.written = true ∧ sc.channel = P.id p.other ∧
      sc.command ∈ ["offersdp", "answersdp", "ice_candidate"] then
    some (serverMessage sc.command (P.id p) sc.data, sc.source)
  else none

/-- The command makes the server ask the other party for an offer. -/
def joins (p : Party) (sc : SentCommand) : Bool :=
  sc.written && sc.channel = P.id p.other && sc.command = "joinchannel"

/-- A step that the party takes by itself, or a message that the server sends
neither to relay a command nor to ask for an offer. -/
def Own (p : Party) : World.Action → Prop
  | .command message origin => origin = none ∧ ∀ c ∈ parseCommand (P.env p) message,
      c.1 ∉ ["createoffer", "offersdp", "answersdp", "ice_candidate"]
  | _ => True

instance (p : Party) : (a : World.Action) → Decidable (P.Own p a)
  | .command message origin => inferInstanceAs (Decidable (origin = none ∧
      ∀ c ∈ parseCommand (P.env p) message,
        c.1 ∉ ["createoffer", "offersdp", "answersdp", "ice_candidate"]))
  | .api _ => inferInstanceAs (Decidable True)
  | .net _ => inferInstanceAs (Decidable True)
  | .process => inferInstanceAs (Decidable True)
  | .callback _ _ => inferInstanceAs (Decidable True)

end Pair

/-- Both peers, and how many relayed messages and how many requests for an offer
each of them has received. -/
structure Net where
  worlds : Party → World
  relayed : Party → ℕ
  asked : Party → ℕ

namespace Net

def init : Net where
  worlds _ := World.init
  relayed _ := 0
  asked _ := 0

def set (p : Party) (w : World) (n : Net) : Net :=
  { n with worlds := Function.update n.worlds p w }

variable (P : Pair)

/-- The relayed messages that the party has not received yet, oldest first. -/
def inFlight (n : Net) (p : Party) : List (Json × Option ℕ) :=
  ((n.worlds p.other).commands.filterMap (P.relay p.other)).drop (n.relayed p)

/-- How many offers the server has to ask the party for. -/
def joined (n : Net) (p : Party) : ℕ := (n.worlds p.other).commands.countP (P.joins p.other)

inductive Action where
  | own (p : Party) (a : World.Action)
  /-- The party receives the oldest relayed message. -/
  | relay (p : Party)
  /-- The party is asked for an offer. -/
  | ask (p : Party)

/-- One step of a party. -/
def act (p : Party) (a : World.Action) (n : Net) : Net :=
  n.set p ((n.worlds p).step (P.env p) a)

def step (n : Net) : Action → Net
  | .own p a => if P.Own p a then n.act P p a else n
  | .relay p =>
    match n.inFlight P p with
    | [] => n
    | (message, origin) :: _ =>
      { n with relayed := Function.update n.relayed p (n.relayed p + 1) }.act P p
        (.command message origin)
  | .ask p =>
    if n.asked p < n.joined P p then
      { n with asked := Function.update n.asked p (n.asked p + 1) }.act P p
        (.command (createOfferMessage [P.id p.other]) none)
    else n

/-! ### Agreement -/

/-- Every answer that an instance has applied is one to its own offer, made by the
instance that the other side has, or had, registered. -/
def Agreement (n : Net) : Prop :=
  ∀ p x, x < (n.worlds p).nextInst → ∀ origin, .answered origin ∈ ((n.worlds p).insts x).log →
    ∃ y, origin = some y ∧ y < (n.worlds p.other).nextInst ∧
      ((n.worlds p.other).insts y).role = some .answer ∧
      ((n.worlds p.other).insts y).origin = some x ∧
      ((n.worlds p).insts x).role = some .offer ∧
      HasEntry (n.worlds p.other) (P.id p) y

/-! ### Undisturbed negotiations -/

/-- The messages for the party that it has not processed yet. -/
def onTheWay (n : Net) (p : Party) : List (Json × Option ℕ) :=
  n.inFlight P p ++ (n.worlds p).incoming

/-- No answer to an offer of the party can still come: none of its offers is on the
way or being answered, and no answer is on the way to it. -/
def Settled (n : Net) (p : Party) : Prop :=
  (∀ m ∈ n.onTheWay P p.other, carries (P.env p.other) .offer m.1 = false) ∧
  (∀ y < (n.worlds p.other).nextInst, ¬ Describing (n.worlds p.other) .answer y) ∧
  ∀ m ∈ n.onTheWay P p, carries (P.env p) .answer m.1 = false

instance (n : Net) (p : Party) : Decidable (n.Settled P p) := by
  unfold Settled
  infer_instance

/-- What keeps negotiations apart: the steps of both peers are orderly, and a peer
starts a connection only when no answer to an earlier offer can still come. -/
def Undisturbed (n : Net) : Action → Prop
  | .own p a => Orderly (P.env p) (n.worlds p) a ∧
      match a with
      | .process => ∀ m ∈ (n.worlds p).queue.head?,
          startedIds (P.env p) (n.worlds p) m ≠ [] → n.Settled P p
      | _ => True
  | _ => True

instance (n : Net) : (a : Action) → Decidable (n.Undisturbed P a)
  | .own p .process => inferInstanceAs (Decidable (_ ∧ ∀ m ∈ (n.worlds p).queue.head?,
      startedIds (P.env p) (n.worlds p) m ≠ [] → n.Settled P p))
  | .own p (.api a) => inferInstanceAs (Decidable (Orderly (P.env p) (n.worlds p) (.api a) ∧ True))
  | .own p (.net a) => inferInstanceAs (Decidable (Orderly (P.env p) (n.worlds p) (.net a) ∧ True))
  | .own p (.command message origin) =>
    inferInstanceAs (Decidable (Orderly (P.env p) (n.worlds p) (.command message origin) ∧ True))
  | .own p (.callback x cb) =>
    inferInstanceAs (Decidable (Orderly (P.env p) (n.worlds p) (.callback x cb) ∧ True))
  | .relay _ => inferInstanceAs (Decidable True)
  | .ask _ => inferInstanceAs (Decidable True)

end Net

end PeerApi.Negotiation

import StateTrace.Command
import StateTrace.Main
import StateTrace.Proofs.Automaton.Interleaving
import StateTrace.Proofs.Playback.Fault
import StateTrace.Proofs.Playback.Prefix
import StateTrace.Proofs.Dot.Determination
import StateTrace.Proofs.Playback.Calls
import StateTrace.Proofs.Playback.Resumption
import StateTrace.Proofs.Command.Stages
import StateTrace.Proofs.Playback.Lifecycle
import StateTrace.Proofs.Playback.Progress
import StateTrace.Proofs.Automaton.Growth
import StateTrace.Proofs.Record.ScopeInvariant
import StateTrace.Proofs.Playback.Bounds
import StateTrace.Proofs.Names.Spelling
import StateTrace.Proofs.Wire.ForeignRounds

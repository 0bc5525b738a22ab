import RuuviMcuboot.Effect.Scan
import RuuviMcuboot.Platform.Reference
import RuuviMcuboot.Validate.Coverage
import RuuviMcuboot.Update.B0Check
import RuuviMcuboot.Update.Gates
import RuuviMcuboot.Update.Install
import RuuviMcuboot.Update.Contract
import RuuviMcuboot.Effect.Along
import RuuviMcuboot.Validate.Digest
import RuuviMcuboot.Validate.Enumerate
import RuuviMcuboot.Validate.Inside
import RuuviMcuboot.Update.Downgrade
import RuuviMcuboot.Update.Compare
import RuuviMcuboot.Revision.Search
import RuuviMcuboot.Revision.Declared
import RuuviMcuboot.Revision.Found
import RuuviMcuboot.Revision.Agree
import RuuviMcuboot.Validate.Keys
import RuuviMcuboot.Validate.Protected
import RuuviMcuboot.Effect.Protocol
import RuuviMcuboot.Update.Handles
import RuuviMcuboot.Effect.Loop
import RuuviMcuboot.Update.Sums
import RuuviMcuboot.Revision.Copied
import RuuviMcuboot.McubootHook
import RuuviMcuboot.Update.RevisionGate
import RuuviMcuboot.Effect.Rising
import RuuviMcuboot.Update.Versions
import RuuviMcuboot.Update.History
import RuuviMcuboot.Update.Authenticated
import RuuviMcuboot.Update.Handover
import RuuviMcuboot.Update.LastSlot
import RuuviMcuboot.Update.Reboots
import RuuviMcuboot.Update.PowerCut
import RuuviMcuboot.Update.Frames
import RuuviMcuboot.Update.Trust
import RuuviMcuboot.Update.Accounts
import RuuviMcuboot.Update.Rest

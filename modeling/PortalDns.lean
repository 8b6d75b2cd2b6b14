import PortalDns.Listener.Session
import PortalDns.Name.Quoted
import PortalDns.Name.Trail
import PortalDns.Proofs.Echoes
import PortalDns.Proofs.NameCircles
import PortalDns.Proofs.Bounces
import PortalDns.Proofs.Handles
import PortalDns.Proofs.Stops
import PortalDns.Proofs.Owners
import PortalDns.Proofs.Truths
import PortalDns.Proofs.Exchanges
import PortalDns.Proofs.Starts
import PortalDns.Proofs.Requests
import PortalDns.Proofs.Switches
import PortalDns.Proofs.Fairness
import PortalDns.Proofs.Completions
import PortalDns.Proofs.Asking
import PortalDns.Proofs.ReadBack
import PortalDns.Proofs.Pushes
import PortalDns.Proofs.Serving
import PortalDns.Proofs.NamePadding
import PortalDns.Proofs.NameRules
import PortalDns.Proofs.QuestionRuns
import PortalDns.Proofs.Counters
import PortalDns.Proofs.AddressFlow
import PortalDns.Proofs.LastReplies
import PortalDns.Proofs.NameTexts
import PortalDns.Proofs.NameSpellings
import PortalDns.Proofs.Networks
import PortalDns.Proofs.WriterRuns
import PortalDns.Proofs.ReaderRuns

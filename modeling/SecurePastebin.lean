import SecurePastebin.Auth.Credentials
import SecurePastebin.Auth.Refusal
import SecurePastebin.Config.Lifetimes
import SecurePastebin.Config.MasterKeys
import SecurePastebin.Crypto.Passwords
import SecurePastebin.Crypto.Slots
import SecurePastebin.Paste.Release
import SecurePastebin.Ratelimit.Admission
import SecurePastebin.Ratelimit.Isolation
import SecurePastebin.Ratelimit.Window
import SecurePastebin.Session.Extension
import SecurePastebin.Session.Resurrection
import SecurePastebin.Session.Settings
import SecurePastebin.Store.MigrationOrder
import SecurePastebin.Sweeper.Traces
import SecurePastebin.System.AuditRows
import SecurePastebin.System.AuditTrail
import SecurePastebin.System.Backlog
import SecurePastebin.System.FailedCreate
import SecurePastebin.System.MarkedOnce
import SecurePastebin.System.Permanence
import SecurePastebin.System.Revocation
import SecurePastebin.System.Roundtrip
import SecurePastebin.System.TerminalEvents
import SecurePastebin.System.Timeline
import SecurePastebin.System.Unavailable
import SecurePastebin.System.Views
import SecurePastebin.Web.Answers
import SecurePastebin.Web.Callback
import SecurePastebin.Web.Content
import SecurePastebin.Web.Csrf
import SecurePastebin.Web.ForwardedFor
import SecurePastebin.Web.Grammar
import SecurePastebin.Web.Guesses
import SecurePastebin.Web.Machine
import SecurePastebin.Web.Pastes
import SecurePastebin.Web.RetryAfter
import SecurePastebin.Web.SessionReasons
import SecurePastebin.Web.Submission
import SecurePastebin.Web.ViewGate
